import DarknetSpace.Sync.Stages

/-!
# From one request to the next

What one event can do to a connection that has a request for the chain behind it, and
what follows for a run. `SyncStep.outcome` is the step lemma: the connection goes on
from stage to stage, or a block is learnt, and the chain is asked for only while
`spent` is not set or in the step that learns. The cases are the events that a steady
peer leaves possible, each of them `Fruitful`.

`Exchange.learns_between` is the run lemma: between two requests for the chain a block
is learnt. A run is followed from the first request on. Until a block is learnt, the
connection is in a stage with `spent` set, and from none of them does a request for the
chain go out.

The core is still a parameter. Of it only `TxsTeachNothing` is asked, that transactions
alone bring no block.
-/

namespace DarknetSpace

open StateExn

section

variable {σ τ : Type} {C : SyncCore σ τ} {env : Env} {p : Node}

/-! ## One event -/

/-- An incoming transaction is not a block. -/
def TxsTeachNothing (C : SyncCore σ τ) : Prop :=
  ∀ t txBlob kept c id,
    C.haveBlock (stateOf (C.handleIncomingTx t txBlob kept c)) id = C.haveBlock c id

theorem handleTxs_known (htx : TxsTeachNothing C) (known : Hash → Bool) (t : τ) (kept : Bool)
    (err : SyncError) (txs : List Blob) :
    Keeps (fun e : Endpoint σ => ∀ id, C.haveBlock e.core id = known id)
      (handleTxs C t kept err txs) := by
  induction txs with
  | nil => exact Keeps.pure _
  | cons txBlob rest ih =>
    refine .bind ?_ fun tvc => .ite (fun _ he => he) ih
    intro e he id
    have hcall := htx t txBlob kept e.core id
    rw [he id] at hcall
    unfold onCore zoom
    cases hx : C.handleIncomingTx t txBlob kept e.core with
    | ok a c =>
      rw [hx] at hcall
      exact hcall
    | error ex c =>
      rw [hx] at hcall
      exact hcall

theorem Stage.of_known {spent : Bool} {c c' : σ} {x : ConnectionContext} {out : List SyncRequest}
    {inb : List SyncResponse} (h : Stage C env p spent c x out inb)
    (known : ∀ id, C.haveBlock c' id = C.haveBlock c id) : Stage C env p spent c' x out inb := by
  have hmissing : ∀ {blocks}, (spent = true → Missing C c x blocks) →
      spent = true → Missing C c' x blocks := by
    intro blocks hm hs
    refine ⟨(hm hs).some', (hm hs).requested, ?_⟩
    intro id hid
    rw [known]
    exact (hm hs).unknown id hid
  cases h with
  | quiet state callbacks needed requested top =>
    refine .quiet state callbacks needed requested fun hs => ?_
    rw [known]
    exact top hs
  | called state callbacks needed requested fresh => exact .called state callbacks needed requested fresh
  | asking state callbacks needed requested => exact .asking state callbacks needed requested
  | told state callbacks needed requested => exact .told state callbacks needed requested
  | stalled state callbacks => exact .stalled state callbacks
  | fetching state callbacks missing => exact .fetching state callbacks (hmissing missing)
  | fetched state callbacks missing sent => exact .fetched state callbacks (hmissing missing) sent

/-- Outside a synchronisation nothing is under way, and after a request the top
of the peer is known. -/
theorem Stage.of_not_synchronizing {spent : Bool} {c : σ} {x : ConnectionContext}
    {out : List SyncRequest} {inb : List SyncResponse} (h : Stage C env p spent c x out inb)
    (hstate : x.mState ≠ .synchronizing) :
    out = [] ∧ inb = [] ∧ x.mCallbackRequestCount = 0 ∧ x.mNeededObjects = [] ∧
      x.mRequestedObjects = ∅ ∧ (spent = true → C.haveBlock c (p.chain.getTopBlockId env) = true) := by
  cases h with
  | quiet _ callbacks needed requested top => exact ⟨rfl, rfl, callbacks, needed, requested, top⟩
  | called state | asking state | told state | stalled state | fetching state | fetched state =>
    exact absurd state hstate

theorem processPayloadSyncData_outbox (hshd : CoreSyncData) (isInital : Bool) (e : Endpoint σ) :
    (processPayloadSyncData C hshd isInital e).2.outbox = e.outbox := by
  unfold processPayloadSyncData
  simp only
  repeat' split
  all_goals rfl

theorem Stage.syncData {spent : Bool} {e : Endpoint σ} {inb : List SyncResponse}
    (h : Stage C env p spent e.core e.context e.outbox inb) (isInital : Bool)
    {e' : Endpoint σ} (he : e' = (processPayloadSyncData C (p.getPayloadSyncData env) isInital e).2)
    (hopen : e'.dropped = false) : Stage C env p spent e'.core e'.context e'.outbox inb := by
  unfold processPayloadSyncData at he
  simp only at he
  by_cases hearly : e.context.mState = .beforHandshake ∧ isInital = false
  · rw [if_pos hearly] at he
    rw [he]
    exact h
  · rw [if_neg hearly] at he
    by_cases hsync : e.context.mState = .synchronizing
    · rw [if_pos hsync] at he
      rw [he]
      exact h
    · rw [if_neg hsync] at he
      obtain ⟨hout, hin, callbacks, needed, requested, top⟩ := h.of_not_synchronizing hsync
      by_cases hknown : C.haveBlock e.core (p.getPayloadSyncData env).topId = true
      · rw [if_pos hknown] at he
        subst he hin
        show Stage C env p spent e.core _ e.outbox []
        rw [hout]
        exact .quiet nofun callbacks needed requested fun _ => hknown
      · rw [if_neg hknown] at he
        have hfresh : spent = false := by
          cases spent with
          | false => rfl
          | true => exact absurd (top rfl) hknown
        by_cases hshort : (p.getPayloadSyncData env).currentHeight <
            C.getCurrentBlockchainHeight e.core
        · rw [if_pos hshort] at he
          rw [he]
          exact h
        · rw [if_neg hshort] at he
          split at he
          · subst he
            cases hopen
          · subst he hin
            show Stage C env p spent e.core _ e.outbox []
            rw [hout]
            exact .called rfl (congrArg (· + 1) callbacks) needed requested hfresh

/-- After a delivery that went through: the next request, or the end. -/
theorem Requests.stage {e e' : Endpoint σ} (h : Requests C true e e') (outbox : e.outbox = [])
    (state : e.context.mState = .synchronizing) (callbacks : e.context.mCallbackRequestCount = 0)
    (requested : e.context.mRequestedObjects = ∅) :
    ((∀ ids, e'.outbox ≠ [.chain ids]) ∧
      Stage C env p false e'.core e'.context e'.outbox []) ∨
    Stage C env p true e'.core e'.context e'.outbox [] := by
  cases h with
  | @objects _ asked left _ =>
    have hbox : (askFor asked left e).outbox = [.getObjects [] asked] := congrArg (· ++ _) outbox
    left
    rw [hbox]
    exact ⟨nofun, .fetching state callbacks nofun⟩
  | chain needed _ =>
    have hbox : (requestChain C e).outbox = [.chain (C.getShortChainHistory e.core)] :=
      congrArg (· ++ _) outbox
    right
    rw [hbox]
    exact .asking state callbacks needed requested
  | done final =>
    left
    simp only [outbox]
    exact ⟨nofun, .quiet nofun callbacks final.2.1 requested nofun⟩
  | failed _ _ =>
    left
    have hbox : (e.logError .finalConditionFailed).outbox = [] := outbox
    rw [hbox]
    exact ⟨nofun, .stalled state callbacks⟩

theorem answer_chain {ids : List Hash} {a : SyncResponse}
    (h : p.answer env (.chain ids) = .ok (some a)) :
    ∃ start, a = .chainEntry (p.chain.stretchFrom env start) := by
  unfold Node.answer Storage.chainEntry at h
  simp only at h
  cases hfind : p.chain.findBlockchainSupplement env ids with
  | error ex =>
    rw [hfind] at h
    cases h
  | ok start =>
    rw [hfind] at h
    cases start with
    | none => cases h
    | some start =>
      cases h
      exact ⟨start, rfl⟩

theorem answer_objects {txs blocks : List Hash} {a : SyncResponse}
    (h : p.answer env (.getObjects txs blocks) = .ok (some a)) :
    ∃ arg, p.handleGetObjects txs blocks = .ok arg ∧ a = .objects arg := by
  unfold Node.answer at h
  simp only at h
  cases hobj : p.handleGetObjects txs blocks with
  | error ex =>
    rw [hobj] at h
    cases h
  | ok arg =>
    rw [hobj] at h
    cases h
    exact ⟨arg, rfl, rfl⟩

variable {g : Hash} {Ok : σ → Prop}

theorem not_asks_of_shorter {s s' : Session σ} {r : SyncRequest} (h : s.here.outbox = r :: s'.here.outbox)
    (ids : List Hash) : ¬ Asks ids s s' := by
  intro hasks
  have hlen := congrArg List.length hasks
  rw [h, List.length_append, List.length_cons] at hlen
  omega

/-- A dropped connection has come to its end. -/
theorem Outcome.of_dropped {spent : Bool} {s s' : Session σ} (peer : s'.peer = p)
    (h : s'.here.dropped = true) (hbox : s'.here.outbox = s.here.outbox) :
    Outcome C env p spent s s' := by
  refine .on ⟨peer, ?_⟩ (not_asks_of_same hbox)
  intro hopen
  rw [h] at hopen
  cases hopen

theorem handleNotifyNewTransactions_context {e e' : Endpoint σ} {t : τ} {txs : List Blob}
    (hend : handleNotifyNewTransactions C t txs e = .ok () e') (hopen : e'.dropped = false) :
    e'.context = e.context := by
  unfold handleNotifyNewTransactions at hend
  rw [bind_of_ok (get_apply e)] at hend
  by_cases hstate : e.context.mState ≠ .normal
  · rw [if_pos hstate] at hend
    cases hend
    rfl
  · rw [if_neg hstate] at hend
    obtain ⟨done, e₁, htxs, hend⟩ := bind_eq_ok.1 hend
    cases hend
    obtain ⟨hgo, hstop⟩ := handleTxs_onlyCore htxs
    cases done with
    | false =>
      rw [hstop rfl] at hopen
      cases hopen
    | true =>
      obtain ⟨c, rfl⟩ := hgo rfl
      rfl

theorem SyncStep.outcome (hp : SteadyPeer env p) (htx : TxsTeachNothing C) {ev : SyncEvent σ τ}
    {s s' : Session σ} {spent : Bool} (h : SyncStep C env g Ok ev s s') (alone : Alone env p ev)
    (fruitful : Fruitful C env ev s) (going : Going C env p spent s) :
    Outcome C env p spent s s' := by
  obtain ⟨peer, stage⟩ := going
  cases h with
  | @syncData _ hshd isInital hopen =>
    have hshd : hshd = p.getPayloadSyncData env := alone
    subst hshd
    exact .on ⟨peer, (stage hopen).syncData isInital rfl⟩
      (not_asks_of_same (processPayloadSyncData_outbox _ _ _))
  | callback hopen hcount =>
    have hstage := stage hopen
    generalize hbox : s.here.outbox = out at hstage
    generalize hin : s.inbox = inb at hstage
    cases hstage with
    | called state callbacks needed requested fresh =>
      refine .asked (.inl fresh) ⟨peer, fun _ => ?_⟩
      have hcall : (onCallback C s.here).2 = requestChain C { s.here with context :=
          { s.here.context with mCallbackRequestCount := 0 } } := by
        unfold onCallback
        rw [callbacks, if_neg Nat.one_ne_zero]
        simp only
        rw [if_pos state]
      simp only [hcall]
      unfold requestChain Endpoint.post
      simp only [hbox, List.nil_append]
      exact .asking state rfl needed requested
    | quiet _ callbacks | asking _ callbacks | told _ callbacks | stalled _ callbacks
    | fetching _ callbacks | fetched _ callbacks => omega
  | @newTransactions _ t txs e hopen ended =>
    have hknown : Keeps (fun e : Endpoint σ => ∀ id, C.haveBlock e.core id =
        C.haveBlock s.here.core id) (handleNotifyNewTransactions C t txs) :=
      .bind Keeps.get fun _ => .ite (Keeps.pure _)
        (.bind (handleTxs_known htx _ t false _ txs) fun _ => Keeps.pure _)
    have hbox : Keeps (fun e : Endpoint σ => e.outbox = s.here.outbox)
        (handleNotifyNewTransactions C t txs) :=
      .bind Keeps.get fun _ => .ite (Keeps.pure _)
        (.bind (handleTxs_outbox _ t false _ txs) fun _ => Keeps.pure _)
    cases ended with
    | @returned _ _ hx =>
      have hbox' := hbox.upTo (E := Survivable) |>.ok rfl hx
      by_cases hd : e.dropped = true
      · exact .of_dropped peer hd hbox'
      · refine .on ⟨peer, fun _ => ?_⟩ (not_asks_of_same hbox')
        have hctx := handleNotifyNewTransactions_context hx (Bool.eq_false_iff.2 hd)
        show Stage C env p spent e.core e.context e.outbox s.inbox
        rw [hctx, hbox']
        exact (stage hopen).of_known (hknown.upTo (E := Survivable) |>.ok (fun _ => rfl) hx)
    | threw hx =>
      have hbox' := hbox.upTo (E := Survivable) |>.error rfl hx rfl
      exact .of_dropped peer rfl hbox'
  | @answers _ r rest a hopen next answered =>
    refine .on ⟨peer, ?_⟩ (not_asks_of_shorter next)
    intro _
    have hstage := stage hopen
    rw [next] at hstage
    rw [peer] at answered
    show Stage C env p spent s.here.core s.here.context rest (s.inbox ++ [a])
    generalize s.inbox = inb at hstage ⊢
    cases hstage with
    | asking state callbacks needed requested =>
      obtain ⟨start, rfl⟩ := answer_chain answered
      exact .told state callbacks needed requested
    | fetching state callbacks missing =>
      obtain ⟨arg, hsent, rfl⟩ := answer_objects answered
      exact .fetched state callbacks missing hsent
  | @silent _ r rest hopen next refused =>
    refine .on ⟨peer, ?_⟩ (not_asks_of_shorter next)
    intro _
    have hstage := stage hopen
    rw [next] at hstage
    show Stage C env p spent s.here.core s.here.context rest s.inbox
    generalize s.inbox = inb at hstage ⊢
    cases hstage with
    | asking state callbacks _ _ => exact .stalled state callbacks
    | fetching state callbacks _ => exact .stalled state callbacks
  | @breaks _ r rest hopen next threw =>
    exact .on ⟨peer, nofun⟩ (not_asks_of_shorter next)
  | @handle _ t a rest e hopen next ended =>
    have hstage := stage hopen
    rw [next] at hstage
    generalize hbox : s.here.outbox = out at hstage
    cases hstage with
    | @told start state callbacks needed requested =>
      cases ended with
      | returned hx =>
        cases hx
        unfold Fruitful at fruitful
        rw [next] at fruitful
        obtain ⟨hsilent, hgo⟩ := handleResponseChainEntry_stage spent hbox state callbacks
          needed requested fruitful (handleResponseChainEntry_told stretch_bounds)
        refine .on ⟨peer, hgo⟩ fun ids hasks => hsilent ids ?_
        unfold Asks at hasks
        rw [hbox] at hasks
        exact hasks
      | threw hx => cases hx
    | @fetched blocks arg state callbacks missing sent =>
      unfold Fruitful at fruitful
      rw [next] at fruitful
      cases ended with
      | returned hx =>
        cases handleResponseGetObjects_taken hx with
        | dropped hbox' hd => exact .of_dropped peer hd hbox'
        | idle known =>
          -- what was asked for is unknown, and nothing else was sent
          have hfresh : spent = false := by
            cases spent with
            | false => rfl
            | true =>
              obtain ⟨entry, hentry, b, hparse, hknown⟩ := known
              obtain ⟨b', hparse', hin⟩ := hp.sends sent entry hentry
              rw [hparse] at hparse'
              cases hparse'
              rw [(missing rfl).unknown _ hin] at hknown
              cases hknown
          refine .on ⟨peer, fun _ => ?_⟩ (not_asks_of_same rfl)
          simp only [hbox]
          exact .quiet nofun callbacks rfl rfl fun hs => by rw [hfresh] at hs; cases hs
        | @processed c height asked empty run =>
          have hreq := requestMissingObjects_requests (C := C) true
            { allReturned arg s.here with core := c }
          have hcore : (requestMissingObjects C true { allReturned arg s.here with core := c }).2.core =
              c := requestMissingObjects_core true _
          generalize (requestMissingObjects C true
            { allReturned arg s.here with core := c }).2 = e' at hreq hcore
          have hlearns : spent = false ∨ Learns C s ⟨e', s.peer, []⟩ := by
            cases spent with
            | false => exact .inl rfl
            | true =>
              obtain ⟨id, hno, hyes⟩ := (missing rfl).learns asked empty run fruitful
              exact .inr ⟨id, hno, hcore ▸ hyes⟩
          rcases hreq.stage hbox state callbacks rfl with ⟨hsilent, hgo⟩ | hgo
          · have hquiet : ∀ ids, ¬ Asks ids s ⟨e', s.peer, []⟩ := by
              intro ids hasks
              unfold Asks at hasks
              rw [hbox] at hasks
              exact hsilent ids hasks
            rcases hlearns with rfl | hlearns
            · exact .on ⟨peer, fun _ => hgo⟩ hquiet
            · exact .learnt hlearns ⟨peer, fun _ => hgo⟩ hquiet
          · exact .asked hlearns ⟨peer, fun _ => hgo⟩
      | threw hx =>
        have hbox' := handleResponseGetObjects_threw hx
        exact .of_dropped peer rfl hbox'
  | newBlock hopen ended => exact alone.elim
  | peerMoves honest heavier => exact alone.elim
  | coreMoves ok => exact alone.elim

/-! ## Every run -/

theorem Going.weaken {s : Session σ} (h : Going C env p true s) : Going C env p false s := by
  refine ⟨h.peer, ?_⟩
  intro hopen
  have hstage := h.stage hopen
  generalize s.here.outbox = out at hstage ⊢
  generalize s.inbox = inb at hstage ⊢
  cases hstage with
  | quiet state callbacks needed requested _ => exact .quiet state callbacks needed requested nofun
  | called _ _ _ _ fresh => cases fresh
  | asking state callbacks needed requested => exact .asking state callbacks needed requested
  | told state callbacks needed requested => exact .told state callbacks needed requested
  | stalled state callbacks => exact .stalled state callbacks
  | fetching state callbacks _ => exact .fetching state callbacks nofun
  | fetched state callbacks _ sent => exact .fetched state callbacks nofun sent

theorem ExchangeStep.outcome (hp : SteadyPeer env p) (htx : TxsTeachNothing C)
    {ev : Option (SyncEvent σ τ)} {s s' : Session σ} {spent : Bool}
    (h : ExchangeStep C env g Ok p s ev s') (fruitful : ∀ e ∈ ev, Fruitful C env e s)
    (going : Going C env p spent s) : Outcome C env p spent s s' := by
  cases h with
  | rest => exact .on going (not_asks_of_same rfl)
  | event step alone => exact step.outcome hp htx alone (fruitful _ rfl) going

namespace Exchange

variable {states : Nat → Session σ} {events : Nat → Option (SyncEvent σ τ)}

theorem going (h : Exchange C env g Ok p states events) (htx : TxsTeachNothing C)
    (fruitful : ∀ k, ∀ e ∈ events k, Fruitful C env e (states k)) (k : Nat) :
    Going C env p false (states k) := by
  induction k with
  | zero =>
    refine ⟨h.start, fun _ => ?_⟩
    rw [h.context, h.outbox, h.inbox]
    exact .quiet nofun rfl rfl rfl nofun
  | succ k ih =>
    cases (h.step k).outcome h.peer htx (fruitful k) ih with
    | on going _ => exact going
    | asked _ going => exact going.weaken
    | learnt _ going _ => exact going

/-- Between two requests for the chain a block is learnt. -/
theorem learns_between (h : Exchange C env g Ok p states events) (htx : TxsTeachNothing C)
    (fruitful : ∀ k, ∀ e ∈ events k, Fruitful C env e (states k)) {i j : Nat} (hij : i < j)
    {ids ids' : List Hash} (first : Asks ids (states i) (states (i + 1)))
    (second : Asks ids' (states j) (states (j + 1))) :
    ∃ k, i < k ∧ k ≤ j ∧ Learns C (states k) (states (k + 1)) := by
  by_contra hnone
  push Not at hnone
  -- nothing learnt: from the first request on the connection is spent
  have hspent : ∀ k, i + 1 ≤ k → k ≤ j → Going C env p true (states k) := by
    intro k hk
    induction k, hk using Nat.le_induction with
    | base =>
      intro _
      cases (h.step i).outcome h.peer htx (fruitful i) (h.going htx fruitful i) with
      | on _ silent => exact absurd first (silent ids)
      | asked _ going => exact going
      | learnt _ _ silent => exact absurd first (silent ids)
    | succ k hk ih =>
      intro hkj
      cases (h.step k).outcome h.peer htx (fruitful k) (ih (by omega)) with
      | on going _ => exact going
      | asked _ going => exact going
      | learnt learns _ _ => exact absurd learns (hnone k (by omega) (by omega))
  cases (h.step j).outcome h.peer htx (fruitful j) (hspent j hij (Nat.le_refl j)) with
  | on _ silent => exact silent ids' second
  | asked may _ =>
    rcases may with hfresh | learns
    · cases hfresh
    · exact hnone j hij (Nat.le_refl j) learns
  | learnt learns _ _ => exact hnone j hij (Nat.le_refl j) learns

end Exchange

end

end DarknetSpace
