import DarknetSpace.Sync.Protocol

/-!
# A connection with an honest peer

The two ends of one connection and what is on the wire between them. The peer
answers from the chain it has at that moment and may change it for a heavier one
between any two messages; the node may learn blocks from elsewhere at any time.

While a node catches up there is exactly one thing under way: the callback, a
request, or its answer. `Phase` lists these, and every event but one takes a
phase to a phase. The one is an answer given from a chain of exactly
`m_last_response_height` blocks: the handler lets it pass, although the peer no
longer has the last block it announced, and then finds its final condition
broken.
-/

namespace DarknetSpace

open StateExn

/-- Both ends of the connection: the peer, this end, and what is under way to it. -/
structure Session (σ : Type) where
  here : Endpoint σ
  peer : Node
  inbox : List SyncResponse

/-- What can happen next on a connection. -/
inductive SyncEvent (σ τ : Type) where
  | syncData (hshd : CoreSyncData) (isInital : Bool)
  | callback
  | newBlock (t : τ) (b : BlockCompleteEntry)
  | newTransactions (t : τ) (txs : List Blob)
  | answer
  | handle (t : τ)
  | peerMoves (n : Node)
  | coreMoves (c : σ)

/-- A peer of the network with genesis block `g`: its chain is a chain. -/
structure HonestPeer (env : Env) (g : Hash) (n : Node) : Prop where
  indexed : IndexedChain env n.chain
  genesis : (blockIds env n.chain.mBlocks)[0]? = some g

/-- A core of that network: its short history ends in the genesis block,
whatever it has been handed. -/
structure CoreOf {σ τ : Type} (C : SyncCore σ τ) (g : Hash) (Ok : σ → Prop) : Prop where
  history : ∀ c, Ok c → (C.getShortChainHistory c).getLast? = some g
  tx : ∀ t txBlob kept, KeepsUpTo Survivable Ok (C.handleIncomingTx t txBlob kept)
  block : ∀ t blockBlob, KeepsUpTo Survivable Ok (C.handleIncomingBlock t blockBlob)

/-- The handler came to its end, or an exception left it and with it the
connection. -/
inductive Ended {σ α : Type} (x : HandlerM σ α) (e : Endpoint σ) : Endpoint σ → Prop where
  | returned {a : α} {e' : Endpoint σ} (h : x e = .ok a e') : Ended x e e'
  | threw {e' : Endpoint σ} (h : x e = .error .indexOverflow e') :
      Ended x e { e' with dropped := true }

section

variable {σ τ : Type} (C : SyncCore σ τ) (env : Env) (g : Hash) (Ok : σ → Prop)

/-- One event. -/
inductive SyncStep : SyncEvent σ τ → Session σ → Session σ → Prop where
  | syncData {s : Session σ} {hshd : CoreSyncData} {isInital : Bool} (open' : s.here.dropped = false) :
      SyncStep (.syncData hshd isInital) s
        { s with here := (processPayloadSyncData C hshd isInital s.here).2 }
  | callback {s : Session σ} (open' : s.here.dropped = false)
      (requested : 0 < s.here.context.mCallbackRequestCount) :
      SyncStep .callback s { s with here := (onCallback C s.here).2 }
  | newBlock {s : Session σ} {t : τ} {b : BlockCompleteEntry} {e : Endpoint σ}
      (open' : s.here.dropped = false) (ended : Ended (handleNotifyNewBlock C t b) s.here e) :
      SyncStep (.newBlock t b) s { s with here := e }
  | newTransactions {s : Session σ} {t : τ} {txs : List Blob} {e : Endpoint σ}
      (open' : s.here.dropped = false)
      (ended : Ended (handleNotifyNewTransactions C t txs) s.here e) :
      SyncStep (.newTransactions t txs) s { s with here := e }
  | answers {s : Session σ} {r : SyncRequest} {rest : List SyncRequest} {a : SyncResponse}
      (open' : s.here.dropped = false) (next : s.here.outbox = r :: rest)
      (answered : s.peer.answer env r = .ok (some a)) :
      SyncStep .answer s { s with here := { s.here with outbox := rest }, inbox := s.inbox ++ [a] }
  | silent {s : Session σ} {r : SyncRequest} {rest : List SyncRequest}
      (open' : s.here.dropped = false) (next : s.here.outbox = r :: rest)
      (refused : s.peer.answer env r = .ok none) :
      SyncStep .answer s { s with here := { s.here with outbox := rest } }
  | breaks {s : Session σ} {r : SyncRequest} {rest : List SyncRequest}
      (open' : s.here.dropped = false) (next : s.here.outbox = r :: rest)
      (threw : s.peer.answer env r = .error .indexOverflow) :
      SyncStep .answer s { s with here := { s.here with outbox := rest, dropped := true } }
  | handle {s : Session σ} {t : τ} {a : SyncResponse} {rest : List SyncResponse} {e : Endpoint σ}
      (open' : s.here.dropped = false) (next : s.inbox = a :: rest)
      (ended : Ended (handleResponse C env t a) s.here e) :
      SyncStep (.handle t) s { s with here := e, inbox := rest }
  | peerMoves {s : Session σ} {n : Node} (honest : HonestPeer env g n)
      (heavier : cumulativeDifficulty s.peer.chain.mBlocks < cumulativeDifficulty n.chain.mBlocks) :
      SyncStep (.peerMoves n) s { s with peer := n }
  | coreMoves {s : Session σ} {c : σ} (ok : Ok c) :
      SyncStep (.coreMoves c) s { s with here := { s.here with core := c } }

/-- A new connection between a core of the network and an honest peer. -/
structure Session.Fresh (s : Session σ) : Prop where
  core : Ok s.here.core
  peer : HonestPeer env g s.peer
  context : s.here.context = .fresh
  outbox : s.here.outbox = []
  errors : s.here.errors = []
  dropped : s.here.dropped = false
  inbox : s.inbox = []

/-- Every session that can come out of a new one, each event allowed by `Safe`. -/
inductive SyncRun (Safe : SyncEvent σ τ → Session σ → Prop) : Session σ → Prop where
  | fresh {s : Session σ} (h : s.Fresh env g Ok) : SyncRun Safe s
  | step {s s' : Session σ} {ev : SyncEvent σ τ} (run : SyncRun Safe s) (safe : Safe ev s)
      (next : SyncStep C env g Ok ev s s') : SyncRun Safe s'

/-- The blocks are not asked of a peer whose chain has just
`m_last_response_height` of them. -/
def KeepsAnnounced (ev : SyncEvent σ τ) (s : Session σ) : Prop :=
  match ev, s.here.outbox with
  | .answer, .getObjects _ _ :: _ =>
    s.peer.chain.getCurrentBlockchainHeight ≠ s.here.context.mLastResponseHeight
  | _, _ => True

end

/-! ## The phases of a connection -/

/-- What is under way, between the context and the wire. -/
inductive Phase (g : Hash) (c : ConnectionContext) :
    List SyncRequest → List SyncResponse → Prop where
  | quiet (state : c.mState ≠ .synchronizing) (callbacks : c.mCallbackRequestCount = 0)
      (needed : c.mNeededObjects = []) (requested : c.mRequestedObjects = ∅) : Phase g c [] []
  | called (state : c.mState = .synchronizing) (callbacks : c.mCallbackRequestCount = 1)
      (needed : c.mNeededObjects = []) (requested : c.mRequestedObjects = ∅) : Phase g c [] []
  | asking {ids : List Hash} (state : c.mState = .synchronizing)
      (callbacks : c.mCallbackRequestCount = 0)
      (needed : c.mNeededObjects = []) (requested : c.mRequestedObjects = ∅)
      (ends : ids.getLast? = some g) : Phase g c [.chain ids] []
  | told {arg : ChainEntry} (state : c.mState = .synchronizing)
      (callbacks : c.mCallbackRequestCount = 0)
      (needed : c.mNeededObjects = []) (requested : c.mRequestedObjects = ∅)
      (some' : arg.mBlockIds ≠ [])
      (within : arg.startHeight + arg.mBlockIds.length ≤ arg.totalHeight) :
      Phase g c [] [.chainEntry arg]
  | fetching {txs blocks : List Hash} (state : c.mState = .synchronizing)
      (callbacks : c.mCallbackRequestCount = 0) : Phase g c [.getObjects txs blocks] []
  | fetched {arg : ObjectsEntry} (state : c.mState = .synchronizing)
      (callbacks : c.mCallbackRequestCount = 0)
      (apart : arg.currentBlockchainHeight ≠ c.mLastResponseHeight) : Phase g c [] [.objects arg]

/-- An open connection is in one of the phases, and its final condition has
never failed. -/
structure Live (g : Hash) (e : Endpoint σ) (inbox : List SyncResponse) : Prop where
  sound : .finalConditionFailed ∉ e.errors
  phase : Phase g e.context e.outbox inbox

/-- What holds of a connection all along: the core is one of those in question, the peer's chain is
in order, and the state of the connection agrees with what is under way. -/
structure SessionInv (env : Env) (g : Hash) (Ok : σ → Prop) (s : Session σ) : Prop where
  core : Ok s.here.core
  peer : HonestPeer env g s.peer
  live : s.here.dropped = false → Live g s.here s.inbox

/-! ## The handlers -/

section

variable {σ τ : Type} {C : SyncCore σ τ} {env : Env} {g : Hash} {Ok : σ → Prop}

/-- What the core does, it does to the core alone. -/
theorem onCore_eq_ok {α : Type} {x : EStateM Exn σ α} {e e' : Endpoint σ} {a : α}
    (h : onCore x e = .ok a e') : ∃ c, x e.core = .ok a c ∧ e' = { e with core := c } := by
  unfold onCore zoom at h
  split at h
  · next b c hx =>
    cases h
    exact ⟨c, hx, rfl⟩
  · cases h

/-- A property of the core that its calls keep. -/
theorem onCore_keeps {α : Type} {x : EStateM Exn σ α} (h : KeepsUpTo Survivable Ok x) :
    KeepsUpTo Survivable (fun e : Endpoint σ => Ok e.core) (onCore x) := by
  intro e he
  unfold onCore zoom
  have hx := h e.core he
  split at hx
  · next heq =>
    rw [heq]
    exact hx
  · next heq =>
    rw [heq]
    exact hx

/-- A call of the core sends nothing. -/
theorem onCore_outbox {α : Type} {box : List SyncRequest} (x : EStateM Exn σ α) :
    Keeps (fun e : Endpoint σ => e.outbox = box) (onCore x) := by
  intro e he
  unfold onCore zoom
  split
  · exact he
  · exact he

/-- A handler that goes on has only written the core. -/
def OnlyCore (r : Bool) (e e' : Endpoint σ) : Prop :=
  (r = true → ∃ c, e' = { e with core := c }) ∧ (r = false → e'.dropped = true)

/-- Transactions that were delivered change the core, and drop the connection at most. -/
theorem handleTxs_onlyCore {t : τ} {kept : Bool} {err : SyncError} {txs : List Blob} {r : Bool}
    {e e' : Endpoint σ} (h : handleTxs C t kept err txs e = .ok r e') : OnlyCore r e e' := by
  induction txs generalizing e with
  | nil =>
    cases h
    exact ⟨fun _ => ⟨_, rfl⟩, nofun⟩
  | cons txBlob rest ih =>
    unfold handleTxs at h
    obtain ⟨tvc, e₁, hcall, h⟩ := bind_eq_ok.1 h
    obtain ⟨c, -, rfl⟩ := onCore_eq_ok hcall
    by_cases hf : tvc.mVerifivationFailed = true
    · rw [if_pos hf] at h
      cases h
      exact ⟨nofun, fun _ => rfl⟩
    · rw [if_neg hf] at h
      have hrest := ih h
      exact hrest

/-- A note in the log does not touch the core. -/
theorem modify_keeps {α : Type} {f : Endpoint σ → Endpoint σ} (hf : ∀ e, (f e).core = e.core)
    (a : α) : KeepsUpTo Survivable (fun e : Endpoint σ => Ok e.core)
      (modify f >>= fun _ => pure a : HandlerM σ α) := by
  intro e he
  show Ok (f e).core
  rw [hf]
  exact he

/-- The transactions of a delivery keep the core as it should be. -/
theorem handleTxs_keeps (hC : CoreOf C g Ok) (t : τ) (kept : Bool) (err : SyncError)
    (txs : List Blob) :
    KeepsUpTo Survivable (fun e : Endpoint σ => Ok e.core) (handleTxs C t kept err txs) := by
  induction txs with
  | nil => exact (Keeps.pure _).upTo
  | cons txBlob rest ih =>
    refine .bind (onCore_keeps (hC.tx t txBlob kept)) fun tvc => .ite ?_ ih
    exact modify_keeps (f := fun e => e.drop err) (fun _ => rfl) false

/-- Blocks that were delivered change the core, and drop the connection at most. -/
theorem processDelivered_onlyCore {t : τ} {entries : List BlockCompleteEntry} {r : Bool}
    {e e' : Endpoint σ} (h : processDelivered C t entries e = .ok r e') : OnlyCore r e e' := by
  induction entries generalizing e with
  | nil =>
    cases h
    exact ⟨fun _ => ⟨_, rfl⟩, nofun⟩
  | cons entry rest ih =>
    unfold processDelivered at h
    obtain ⟨done, e₁, htxs, h⟩ := bind_eq_ok.1 h
    obtain ⟨hgo, hstop⟩ := handleTxs_onlyCore htxs
    cases done with
    | false =>
      cases h
      exact ⟨nofun, fun _ => hstop rfl⟩
    | true =>
      obtain ⟨c, rfl⟩ := hgo rfl
      rw [if_pos rfl] at h
      obtain ⟨bvc, e₂, hcall, h⟩ := bind_eq_ok.1 h
      obtain ⟨c', -, rfl⟩ := onCore_eq_ok hcall
      by_cases hf : bvc.mVerifivationFailed = true
      · rw [if_pos hf] at h
        cases h
        exact ⟨nofun, fun _ => rfl⟩
      · rw [if_neg hf] at h
        by_cases ho : bvc.mMarkedAsOrphaned = true
        · rw [if_pos ho] at h
          cases h
          exact ⟨nofun, fun _ => rfl⟩
        · rw [if_neg ho] at h
          have hrest := ih h
          exact hrest

/-- The blocks of a delivery keep the core as it should be. -/
theorem processDelivered_keeps (hC : CoreOf C g Ok) (t : τ) (entries : List BlockCompleteEntry) :
    KeepsUpTo Survivable (fun e : Endpoint σ => Ok e.core) (processDelivered C t entries) := by
  induction entries with
  | nil => exact (Keeps.pure _).upTo
  | cons entry rest ih =>
    refine .bind (handleTxs_keeps hC t true .txFailed entry.txs) fun done =>
      .ite ?_ (Keeps.pure _).upTo
    refine .bind (onCore_keeps (hC.block t entry.block)) fun bvc => .ite ?_ (.ite ?_ ih)
    · exact modify_keeps (f := fun e => e.dropAndReport .blockFailed) (fun _ => rfl) false
    · exact modify_keeps (f := fun e => e.dropAndReport .blockOrphaned) (fun _ => rfl) false

/-- What the first loop over an answer leaves behind. -/
inductive Delivered (C : SyncCore σ τ) (env : Env) (entries : List BlockCompleteEntry)
    (e : Endpoint σ) : Bool × Endpoint σ → Prop where
  | all (requested : Finset Hash)
      (asked : ∀ entry ∈ entries, ∃ b, parseAndValidateBlockFromBlob entry.block = some b ∧
        getBlockHash env b ∈ e.context.mRequestedObjects)
      (empty : entries = [] → requested = e.context.mRequestedObjects) :
      Delivered C env entries e
        (true, { e with context := { e.context with mRequestedObjects := requested } })
  | idle (known : ∃ entry ∈ entries, ∃ b, parseAndValidateBlockFromBlob entry.block = some b ∧
        C.haveBlock e.core (getBlockHash env b) = true) :
      Delivered C env entries e (false, { e with context := { e.context with
        mState := .idle
        mNeededObjects := []
        mRequestedObjects := ∅ } })
  | dropped {e' : Endpoint σ} (core : e'.core = e.core) (outbox : e'.outbox = e.outbox)
      (h : e'.dropped = true) : Delivered C env entries e (false, e')

/-- Looking through a delivery takes its blocks off those that were asked for. -/
theorem checkDelivered_delivered (entries : List BlockCompleteEntry) (count : Nat)
    (e : Endpoint σ) : Delivered C env entries e (checkDelivered C env entries count e) := by
  induction entries generalizing count e with
  | nil => exact .all e.context.mRequestedObjects nofun fun _ => rfl
  | cons entry rest ih =>
    unfold checkDelivered
    cases hparse : parseAndValidateBlockFromBlob entry.block with
    | none => exact .dropped rfl rfl rfl
    | some b =>
      simp only
      by_cases hidle : count + 1 = 2 ∧ C.haveBlock e.core (getBlockHash env b) = true
      · rw [if_pos hidle]
        exact .idle ⟨entry, List.mem_cons_self, b, hparse, hidle.2⟩
      · rw [if_neg hidle]
        by_cases hreq : getBlockHash env b ∉ e.context.mRequestedObjects
        · rw [if_pos hreq]
          exact .dropped rfl rfl rfl
        · rw [if_neg hreq]
          by_cases htxs : b.txHashes.length ≠ entry.txs.length
          · rw [if_pos htxs]
            exact .dropped rfl rfl rfl
          · rw [if_neg htxs]
            have hrest := ih (count + 1) { e with context := { e.context with
              mRequestedObjects := e.context.mRequestedObjects.erase (getBlockHash env b) } }
            generalize checkDelivered C env rest (count + 1) _ = r at hrest ⊢
            cases hrest with
            | all requested asked empty =>
              refine .all requested ?_ nofun
              intro entry' hmem
              rcases List.mem_cons.1 hmem with rfl | hmem
              · exact ⟨b, hparse, not_not.1 hreq⟩
              · obtain ⟨b', hparse', hin⟩ := asked entry' hmem
                exact ⟨b', hparse', Finset.mem_of_mem_erase hin⟩
            | idle known =>
              obtain ⟨entry', hmem, hknown⟩ := known
              exact .idle ⟨entry', List.mem_cons_of_mem _ hmem, hknown⟩
            | dropped core outbox h => exact .dropped core outbox h

/-- Asking for more leaves the core alone. -/
@[simp] theorem requestMissingObjects_core (check : Bool) (e : Endpoint σ) :
    (requestMissingObjects C check e).2.core = e.core := by
  unfold requestMissingObjects
  by_cases hneed : e.context.mNeededObjects ≠ []
  · rw [if_pos hneed]
    rfl
  · rw [if_neg hneed]
    by_cases hmore : e.context.mLastResponseHeight < heightBelow e.context.mRemoteBlockchainHeight
    · rw [if_pos hmore]
      rfl
    · rw [if_neg hmore]
      by_cases hfin : e.context.FinalCondition
      · rw [if_pos hfin]
      · rw [if_neg hfin]
        rfl

/-- The final branch, its condition broken. -/
theorem requestMissingObjects_failed {e : Endpoint σ} (check : Bool)
    (needed : e.context.mNeededObjects = [])
    (top : ¬ e.context.mLastResponseHeight < heightBelow e.context.mRemoteBlockchainHeight)
    (broken : ¬ e.context.FinalCondition) :
    requestMissingObjects C check e = (false, e.logError .finalConditionFailed) := by
  unfold requestMissingObjects
  rw [if_neg (not_not.2 needed), if_neg top, if_neg broken]

/-- With everything delivered and the announced blocks still there, the next
request goes out or the connection is in step. -/
theorem requestMissingObjects_live (hC : CoreOf C g Ok) {e : Endpoint σ} (check : Bool)
    (ok : Ok e.core) (sound : .finalConditionFailed ∉ e.errors)
    (state : e.context.mState = .synchronizing) (callbacks : e.context.mCallbackRequestCount = 0)
    (requested : e.context.mRequestedObjects = ∅) (outbox : e.outbox = [])
    (last : e.context.mLastResponseHeight < e.context.mRemoteBlockchainHeight) :
    Live g (requestMissingObjects C check e).2 [] := by
  have hbelow : heightBelow e.context.mRemoteBlockchainHeight =
      e.context.mRemoteBlockchainHeight - 1 := if_neg (by omega)
  unfold requestMissingObjects
  by_cases hneed : e.context.mNeededObjects ≠ []
  · rw [if_pos hneed]
    refine ⟨sound, ?_⟩
    unfold Endpoint.post
    simp only [outbox, List.nil_append]
    exact .fetching state callbacks
  · rw [if_neg hneed]
    have hnil := not_not.1 hneed
    by_cases hmore : e.context.mLastResponseHeight < heightBelow e.context.mRemoteBlockchainHeight
    · rw [if_pos hmore]
      refine ⟨sound, ?_⟩
      unfold requestChain Endpoint.post
      simp only [outbox, List.nil_append]
      exact .asking state callbacks hnil requested (hC.history e.core ok)
    · rw [if_neg hmore]
      have hfin : e.context.FinalCondition := ⟨by omega, hnil, requested⟩
      rw [if_pos hfin]
      refine ⟨sound, ?_⟩
      simp only [outbox]
      exact .quiet nofun callbacks hnil requested

/-- The context with the heights of a stretch and its unknown ids. -/
def noted (C : SyncCore σ τ) (arg : ChainEntry) (e : Endpoint σ) : Endpoint σ :=
  { e with context := { e.context with
    mRemoteBlockchainHeight := arg.totalHeight
    mLastResponseHeight := arg.startHeight + arg.mBlockIds.length - 1
    mNeededObjects := e.context.mNeededObjects ++
      arg.mBlockIds.filter fun id => !C.haveBlock e.core id } }

/-- A stretch within the chain that starts at a known block is noted. -/
theorem handleResponseChainEntry_eq {e : Endpoint σ} {arg : ChainEntry} {front : Hash}
    {rest : List Hash} (hids : arg.mBlockIds = front :: rest)
    (known : C.haveBlock e.core front = true)
    (within : arg.startHeight + arg.mBlockIds.length ≤ arg.totalHeight) :
    handleResponseChainEntry C arg e = (requestMissingObjects C false (noted C arg e)).2 := by
  unfold handleResponseChainEntry noted
  rw [hids] at within ⊢
  have hnot : ¬ arg.totalHeight < arg.startHeight + (front :: rest).length - 1 := by omega
  simp only
  rw [if_neg (not_not.2 known), if_neg hnot]

/-- How `handle_response_chain_entry` ends for a stretch within the chain. -/
inductive Told (C : SyncCore σ τ) (arg : ChainEntry) (e : Endpoint σ) : Endpoint σ → Prop where
  | dropped {e' : Endpoint σ} (outbox : e'.outbox = e.outbox) (h : e'.dropped = true) :
      Told C arg e e'
  | listed (some' : arg.mBlockIds ≠ []) :
      Told C arg e (requestMissingObjects C false (noted C arg e)).2

/-- A stretch within the height of the peer is taken, or the connection is dropped. -/
theorem handleResponseChainEntry_told {e : Endpoint σ} {arg : ChainEntry}
    (within : arg.mBlockIds ≠ [] → arg.startHeight + arg.mBlockIds.length ≤ arg.totalHeight) :
    Told C arg e (handleResponseChainEntry C arg e) := by
  cases hids : arg.mBlockIds with
  | nil =>
    unfold handleResponseChainEntry
    rw [hids]
    exact .dropped rfl rfl
  | cons front rest =>
    have hsome : arg.mBlockIds ≠ [] := by
      rw [hids]
      exact List.cons_ne_nil _ _
    by_cases hknown : C.haveBlock e.core front = true
    · rw [handleResponseChainEntry_eq hids hknown (within hsome)]
      exact .listed hsome
    · unfold handleResponseChainEntry
      rw [hids]
      simp only
      rw [if_pos hknown]
      exact .dropped rfl rfl

/-- After a stretch of ids the connection is alive, or dropped. -/
theorem handleResponseChainEntry_live (hC : CoreOf C g Ok) {e : Endpoint σ} {arg : ChainEntry}
    (ok : Ok e.core) (h : Live g e [.chainEntry arg])
    (hopen : (handleResponseChainEntry C arg e).dropped = false) :
    Live g (handleResponseChainEntry C arg e) [] := by
  obtain ⟨sound, phase⟩ := h
  generalize hbox : e.outbox = outbox at phase
  cases phase with
  | told state callbacks needed requested hsome within =>
    have htold : Told C arg e (handleResponseChainEntry C arg e) :=
      handleResponseChainEntry_told fun _ => within
    generalize handleResponseChainEntry C arg e = e' at htold hopen ⊢
    cases htold with
    | dropped _ hd =>
      rw [hd] at hopen
      cases hopen
    | listed _ =>
      have hpos := List.length_pos_of_ne_nil hsome
      refine requestMissingObjects_live hC false ok sound state callbacks requested hbox ?_
      show arg.startHeight + arg.mBlockIds.length - 1 < arg.totalHeight
      omega

/-- Everything requested has come: the context before the blocks go to the
core. -/
def allReturned (arg : ObjectsEntry) (e : Endpoint σ) : Endpoint σ :=
  { e with context := { e.context with
    mRemoteBlockchainHeight := arg.currentBlockchainHeight
    mRequestedObjects := ∅ } }

/-- How `handle_response_get_objects` returns. -/
inductive Taken (C : SyncCore σ τ) (env : Env) (t : τ) (arg : ObjectsEntry) (e : Endpoint σ) :
    Endpoint σ → Prop where
  | dropped {e' : Endpoint σ} (outbox : e'.outbox = e.outbox) (h : e'.dropped = true) :
      Taken C env t arg e e'
  | idle (known : ∃ entry ∈ arg.blocks, ∃ b,
        parseAndValidateBlockFromBlob entry.block = some b ∧
        C.haveBlock e.core (getBlockHash env b) = true) :
      Taken C env t arg e { e with context := { e.context with
        mState := .idle
        mNeededObjects := []
        mRequestedObjects := ∅
        mRemoteBlockchainHeight := arg.currentBlockchainHeight } }
  | processed {c : σ} (height : ¬ arg.currentBlockchainHeight < e.context.mLastResponseHeight)
      (asked : ∀ entry ∈ arg.blocks, ∃ b, parseAndValidateBlockFromBlob entry.block = some b ∧
        getBlockHash env b ∈ e.context.mRequestedObjects)
      (empty : arg.blocks = [] → e.context.mRequestedObjects = ∅)
      (run : processDelivered C t arg.blocks (allReturned arg e) =
        .ok true { allReturned arg e with core := c }) :
      Taken C env t arg e (requestMissingObjects C true { allReturned arg e with core := c }).2

/-- A handler that does not write the outbox leaves it as it is. -/
theorem handleTxs_outbox (box : List SyncRequest) (t : τ) (kept : Bool) (err : SyncError)
    (txs : List Blob) :
    Keeps (fun e : Endpoint σ => e.outbox = box) (handleTxs C t kept err txs) := by
  induction txs with
  | nil => exact Keeps.pure _
  | cons txBlob rest ih =>
    refine .bind (onCore_outbox _) fun tvc => .ite ?_ ih
    exact fun _ he => he

/-- Taking blocks in sends nothing. -/
theorem processDelivered_outbox (box : List SyncRequest) (t : τ)
    (entries : List BlockCompleteEntry) :
    Keeps (fun e : Endpoint σ => e.outbox = box) (processDelivered C t entries) := by
  induction entries with
  | nil => exact Keeps.pure _
  | cons entry rest ih =>
    refine .bind (handleTxs_outbox box t true .txFailed entry.txs) fun done =>
      .ite ?_ (Keeps.pure _)
    refine .bind (onCore_outbox _) fun bvc => .ite ?_ (.ite ?_ ih)
    · exact fun _ he => he
    · exact fun _ he => he

/-- Where a delivery can leave by an exception, nothing has been posted yet. -/
theorem handleResponseGetObjects_ends (t : τ) (arg : ObjectsEntry) (e : Endpoint σ) :
    match handleResponseGetObjects C env t arg e with
    | .ok _ e' => Taken C env t arg e e'
    | .error _ e' => e'.outbox = e.outbox := by
  unfold handleResponseGetObjects
  by_cases hlow : arg.currentBlockchainHeight < e.context.mLastResponseHeight
  · rw [if_pos hlow]
    exact .dropped rfl rfl
  · rw [if_neg hlow]
    simp only
    have hdel : Delivered C env arg.blocks _ (checkDelivered C env arg.blocks 0 { e with context :=
        { e.context with mRemoteBlockchainHeight := arg.currentBlockchainHeight } }) :=
      checkDelivered_delivered arg.blocks 0 _
    generalize checkDelivered C env arg.blocks 0 _ = r at hdel ⊢
    cases hdel with
    | dropped core outbox hd => exact .dropped outbox hd
    | idle known => exact .idle known
    | all requested asked empty =>
      simp only
      by_cases hreq : requested ≠ ∅
      · rw [if_pos hreq]
        exact .dropped rfl rfl
      · rw [if_neg hreq]
        have hnone := not_not.1 hreq
        subst hnone
        have hbox := processDelivered_outbox (C := C) e.outbox t arg.blocks (allReturned arg e) rfl
        cases hrun : processDelivered C t arg.blocks (allReturned arg e) with
        | error ex e₁ =>
          have hfailed := hrun
          unfold allReturned at hfailed
          rw [hrun] at hbox
          rw [hfailed]
          exact hbox
        | ok done e₁ =>
          have hreturned := hrun
          unfold allReturned at hreturned
          rw [hrun] at hbox
          rw [hreturned]
          obtain ⟨hgo, hstop⟩ := processDelivered_onlyCore hrun
          cases done with
          | false => exact .dropped hbox (hstop rfl)
          | true =>
            obtain ⟨c, rfl⟩ := hgo rfl
            exact .processed hlow asked (fun h => (empty h).symm) hrun

/-- A delivery that was handled was taken block by block, as `Taken` says. -/
theorem handleResponseGetObjects_taken {e e' : Endpoint σ} {t : τ} {arg : ObjectsEntry}
    (hend : handleResponseGetObjects C env t arg e = .ok () e') : Taken C env t arg e e' := by
  have hends := @handleResponseGetObjects_ends _ _ C env t arg e
  rw [hend] at hends
  exact hends

theorem handleResponseGetObjects_threw {e e' : Endpoint σ} {t : τ} {arg : ObjectsEntry} {ex : Exn}
    (hend : handleResponseGetObjects C env t arg e = .error ex e') : e'.outbox = e.outbox := by
  have hends := @handleResponseGetObjects_ends _ _ C env t arg e
  rw [hend] at hends
  exact hends

/-- After a delivery the connection is alive, or dropped. -/
theorem handleResponseGetObjects_live (hC : CoreOf C g Ok) {e e' : Endpoint σ} {t : τ}
    {arg : ObjectsEntry} (ok : Ok e.core) (h : Live g e [.objects arg])
    (hend : handleResponseGetObjects C env t arg e = .ok () e') (hopen : e'.dropped = false) :
    Live g e' [] := by
  obtain ⟨sound, phase⟩ := h
  generalize hbox : e.outbox = outbox at phase
  cases phase with
  | fetched state callbacks apart =>
    cases handleResponseGetObjects_taken hend with
    | dropped _ hd =>
      rw [hd] at hopen
      cases hopen
    | idle _ =>
      refine ⟨sound, ?_⟩
      simp only [hbox]
      exact .quiet nofun callbacks rfl rfl
    | @processed c height _ _ run =>
      have hok : Ok c := by
        refine KeepsUpTo.ok (processDelivered_keeps hC t arg.blocks) ?_ run
        exact ok
      refine requestMissingObjects_live hC true hok sound state callbacks rfl hbox ?_
      show e.context.mLastResponseHeight < arg.currentBlockchainHeight
      omega

/-- In any state but `state_normal` a new block is ignored; in it, there is
nothing under way. -/
theorem handleNotifyNewBlock_live (hC : CoreOf C g Ok) {e e' : Endpoint σ} {t : τ}
    {b : BlockCompleteEntry} {inbox : List SyncResponse} (ok : Ok e.core) (h : Live g e inbox)
    (hend : handleNotifyNewBlock C t b e = .ok () e') (hopen : e'.dropped = false) :
    Live g e' inbox := by
  unfold handleNotifyNewBlock at hend
  rw [bind_of_ok (get_apply e)] at hend
  by_cases hstate : e.context.mState ≠ .normal
  · rw [if_pos hstate] at hend
    cases hend
    exact h
  · rw [if_neg hstate] at hend
    obtain ⟨done, e₁, htxs, hend⟩ := bind_eq_ok.1 hend
    obtain ⟨hgo, hstop⟩ := handleTxs_onlyCore htxs
    cases done with
    | false =>
      cases hend
      rw [hstop rfl] at hopen
      cases hopen
    | true =>
      obtain ⟨c, rfl⟩ := hgo rfl
      rw [if_pos rfl] at hend
      obtain ⟨bvc, e₂, hcall, hend⟩ := bind_eq_ok.1 hend
      obtain ⟨c', hcore, rfl⟩ := onCore_eq_ok hcall
      by_cases hf : bvc.mVerifivationFailed = true
      · rw [if_pos hf] at hend
        cases hend
        cases hopen
      · rw [if_neg hf] at hend
        by_cases ha : bvc.mAddedToMainChain = true
        · rw [if_pos ha] at hend
          cases hend
          exact ⟨h.sound, h.phase⟩
        · rw [if_neg ha] at hend
          by_cases ho : bvc.mMarkedAsOrphaned = true
          · rw [if_pos ho] at hend
            cases hend
            have hok : Ok c := (handleTxs_keeps hC t true .newBlockTxFailed b.txs).ok ok htxs
            have hok' : Ok c' := (hC.block t b.block).ok hok hcore
            obtain ⟨sound, phase⟩ := h
            have hnormal := not_not.1 hstate
            -- an orphan is asked for only by a side that has nothing under way
            generalize hbox : e.outbox = outbox at phase
            cases phase with
            | quiet _ callbacks needed requested =>
              refine ⟨sound, ?_⟩
              unfold requestChain Endpoint.post
              simp only [List.nil_append]
              exact .asking rfl callbacks needed requested (hC.history c' hok')
            | called state | asking state | told state | fetching state | fetched state =>
              rw [hnormal] at state
              cases state
          · rw [if_neg ho] at hend
            cases hend
            exact ⟨h.sound, h.phase⟩

/-- A new block keeps the core as it should be. -/
theorem handleNotifyNewBlock_keeps (hC : CoreOf C g Ok) (t : τ) (b : BlockCompleteEntry) :
    KeepsUpTo Survivable (fun e : Endpoint σ => Ok e.core) (handleNotifyNewBlock C t b) := by
  refine .bind Keeps.get.upTo fun e => .ite (Keeps.pure _).upTo ?_
  refine .bind (handleTxs_keeps hC t true _ b.txs) fun done => .ite ?_ (Keeps.pure _).upTo
  refine .bind (onCore_keeps (hC.block t b.block)) fun bvc => .ite ?_ (.ite (Keeps.pure _).upTo
    (.ite ?_ (Keeps.pure _).upTo))
  · exact fun _ he => he
  · exact fun _ he => he

/-- New transactions leave the state of the connection alone. -/
theorem handleNotifyNewTransactions_live {e e' : Endpoint σ} {t : τ} {txs : List Blob}
    {inbox : List SyncResponse} (h : Live g e inbox)
    (hend : handleNotifyNewTransactions C t txs e = .ok () e') (hopen : e'.dropped = false) :
    Live g e' inbox := by
  unfold handleNotifyNewTransactions at hend
  rw [bind_of_ok (get_apply e)] at hend
  by_cases hstate : e.context.mState ≠ .normal
  · rw [if_pos hstate] at hend
    cases hend
    exact h
  · rw [if_neg hstate] at hend
    obtain ⟨done, e₁, htxs, hend⟩ := bind_eq_ok.1 hend
    cases hend
    obtain ⟨hgo, hstop⟩ := handleTxs_onlyCore htxs
    cases done with
    | false =>
      rw [hstop rfl] at hopen
      cases hopen
    | true =>
      obtain ⟨c, rfl⟩ := hgo rfl
      exact ⟨h.sound, h.phase⟩

theorem handleNotifyNewTransactions_keeps (hC : CoreOf C g Ok) (t : τ) (txs : List Blob) :
    KeepsUpTo Survivable (fun e : Endpoint σ => Ok e.core)
      (handleNotifyNewTransactions C t txs) :=
  .bind Keeps.get.upTo fun _ => .ite (Keeps.pure _).upTo
    (.bind (handleTxs_keeps hC t false _ txs) fun _ => (Keeps.pure _).upTo)

/-! ## The answers of an honest peer -/

/-- A history that ends in the genesis block is answered by a stretch of the
chain, at least one block long. -/
theorem HonestPeer.chainEntry {n : Node} (h : HonestPeer env g n) {ids : List Hash}
    (ends : ids.getLast? = some g) :
    ∃ arg, n.chain.chainEntry env ids = .ok (some arg) ∧ arg.mBlockIds ≠ [] ∧
      arg.startHeight + arg.mBlockIds.length ≤ arg.totalHeight := by
  obtain ⟨e, he, hid⟩ := getElem?_blockIds.1 h.genesis
  have hfound : ∃ start, ids.findSome? (indexHeight n.chain.mBlocksIndex) = some start := by
    rw [← Option.isSome_iff_exists, List.findSome?_isSome_iff]
    refine ⟨g, List.mem_of_getLast? ends, ?_⟩
    rw [h.indexed.index, indexHeight, Option.isSome_iff_ne_none, Ne, List.idxOf?_eq_none_iff,
      not_not]
    exact List.mem_of_getElem? h.genesis
  obtain ⟨start, hstart⟩ := hfound
  have hsup : n.chain.findBlockchainSupplement env ids = .ok (some start) := by
    unfold Storage.findBlockchainSupplement
    have hat : n.chain.blockAt 0 = .ok e := by
      unfold Storage.blockAt
      rw [he]
    rw [ends]
    simp only [hat, hid, ne_eq, not_true_eq_false, if_false, hstart, bind, Except.bind, pure,
      Except.pure]
  have hlt : start < n.chain.mBlocks.length := by
    obtain ⟨id, -, hat⟩ := List.exists_of_findSome?_eq_some hstart
    rw [h.indexed.index] at hat
    have := (List.getElem?_eq_some_iff.1 (getElem?_of_indexHeight hat)).1
    rwa [blockIds, List.length_map] at this
  have hlen : (blockIds env n.chain.mBlocks).length = n.chain.mBlocks.length := List.length_map ..
  refine ⟨n.chain.stretchFrom env start, ?_, ?_, ?_⟩
  · unfold Storage.chainEntry
    rw [hsup]
    rfl
  · apply List.ne_nil_of_length_pos
    rw [Storage.stretchFrom, List.length_take, List.length_drop, hlen,
      blocksIdsSynchronizingDefaultCount]
    omega
  · show start + (((blockIds env n.chain.mBlocks).drop start).take _).length ≤ n.chain.mBlocks.length
    rw [List.length_take, List.length_drop, hlen]
    omega

/-- A delivery names the height of the chain it is from. -/
theorem handleGetObjects_height {n : Node} {txs blocks : List Hash} {arg : ObjectsEntry}
    (h : n.handleGetObjects txs blocks = .ok arg) :
    arg.currentBlockchainHeight = n.chain.getCurrentBlockchainHeight := by
  unfold Node.handleGetObjects at h
  simp only [bind, Except.bind, pure, Except.pure] at h
  split at h
  · cases h
  · split at h
    · cases h
    · cases h
      rfl

/-- The answer to what is asked takes the connection on; it is not silence. -/
theorem Phase.answered {n : Node} (hpeer : HonestPeer env g n) {c : ConnectionContext}
    {r : SyncRequest} {rest : List SyncRequest} {inbox : List SyncResponse}
    (h : Phase g c (r :: rest) inbox)
    (safe : ∀ txs blocks, r = .getObjects txs blocks →
      n.chain.getCurrentBlockchainHeight ≠ c.mLastResponseHeight) :
    n.answer env r ≠ .ok none ∧
      ∀ a, n.answer env r = .ok (some a) → Phase g c rest (inbox ++ [a]) := by
  cases h with
  | @asking ids state callbacks needed requested ends =>
    obtain ⟨arg, harg, hsome, hwithin⟩ := hpeer.chainEntry ends
    have hanswer : n.answer env (.chain ids) = .ok (some (.chainEntry arg)) := by
      simp only [Node.answer, harg]
      rfl
    rw [hanswer]
    refine ⟨nofun, ?_⟩
    intro a ha
    cases ha
    exact .told state callbacks needed requested hsome hwithin
  | @fetching txs blocks state callbacks =>
    cases hobj : n.handleGetObjects txs blocks with
    | error ex =>
      have hanswer : n.answer env (.getObjects txs blocks) = .error ex := by
        simp only [Node.answer, hobj]
        rfl
      rw [hanswer]
      exact ⟨nofun, nofun⟩
    | ok arg =>
      have hanswer : n.answer env (.getObjects txs blocks) = .ok (some (.objects arg)) := by
        simp only [Node.answer, hobj]
        rfl
      rw [hanswer]
      refine ⟨nofun, ?_⟩
      intro a ha
      cases ha
      refine .fetched state callbacks ?_
      rw [handleGetObjects_height hobj]
      exact safe txs blocks rfl

/-! ## Every run -/

/-- Outside a synchronisation there is nothing under way. -/
theorem Phase.of_not_synchronizing {c : ConnectionContext} {outbox : List SyncRequest}
    {inbox : List SyncResponse} (h : Phase g c outbox inbox) (hstate : c.mState ≠ .synchronizing) :
    (c.mCallbackRequestCount = 0 ∧ c.mNeededObjects = [] ∧ c.mRequestedObjects = ∅) ∧
      outbox = [] ∧ inbox = [] := by
  cases h with
  | quiet _ callbacks needed requested => exact ⟨⟨callbacks, needed, requested⟩, rfl, rfl⟩
  | called state | asking state | told state | fetching state | fetched state =>
    exact absurd state hstate

/-- The peer's height and top come, and the connection waits for a callback if there is something to
fetch. -/
theorem Live.syncData {e : Endpoint σ} {inbox : List SyncResponse}
    (h : Live g e inbox) (hshd : CoreSyncData) (isInital : Bool)
    (hopen : (processPayloadSyncData C hshd isInital e).2.dropped = false) :
    Live g (processPayloadSyncData C hshd isInital e).2 inbox := by
  unfold processPayloadSyncData at hopen ⊢
  simp only at hopen ⊢
  by_cases hearly : e.context.mState = .beforHandshake ∧ isInital = false
  · rw [if_pos hearly]
    exact h
  · rw [if_neg hearly] at hopen ⊢
    by_cases hsync : e.context.mState = .synchronizing
    · rw [if_pos hsync]
      exact h
    · rw [if_neg hsync] at hopen ⊢
      obtain ⟨⟨callbacks, needed, requested⟩, hout, hin⟩ := h.phase.of_not_synchronizing hsync
      by_cases htop : C.haveBlock e.core hshd.topId = true
      · rw [if_pos htop]
        refine ⟨h.sound, ?_⟩
        simp only [hout, hin]
        exact .quiet nofun callbacks needed requested
      · rw [if_neg htop] at hopen ⊢
        by_cases hshort : hshd.currentHeight < C.getCurrentBlockchainHeight e.core
        · rw [if_pos hshort]
          exact h
        · rw [if_neg hshort] at hopen ⊢
          split at hopen
          · cases hopen
          · next hzone =>
            rw [if_neg hzone]
            refine ⟨h.sound, ?_⟩
            simp only [hout, hin]
            exact .called rfl (by simp only [callbacks]) needed requested

theorem processPayloadSyncData_core (hshd : CoreSyncData) (isInital : Bool) (e : Endpoint σ) :
    (processPayloadSyncData C hshd isInital e).2.core = e.core := by
  unfold processPayloadSyncData
  simp only
  repeat' split
  all_goals rfl

theorem onCallback_core (e : Endpoint σ) : (onCallback C e).2.core = e.core := by
  unfold onCallback
  simp only
  repeat' split
  all_goals rfl

/-- The callback asks for the chain. -/
theorem Live.callback (hC : CoreOf C g Ok) {e : Endpoint σ} {inbox : List SyncResponse}
    (ok : Ok e.core) (h : Live g e inbox) (hcount : 0 < e.context.mCallbackRequestCount) :
    Live g (onCallback C e).2 inbox := by
  obtain ⟨sound, phase⟩ := h
  generalize hbox : e.outbox = outbox at phase
  cases phase with
  | called state callbacks needed requested =>
    unfold onCallback
    rw [if_neg (by omega)]
    simp only
    rw [if_pos state]
    refine ⟨sound, ?_⟩
    unfold requestChain Endpoint.post
    simp only [hbox, List.nil_append]
    exact .asking state (by simp only [callbacks]) needed requested (hC.history e.core ok)
  | quiet _ callbacks | asking _ callbacks | told _ callbacks | fetching _ callbacks
  | fetched _ callbacks => omega

/-- A handler that keeps an open connection alive does so however it ends. -/
theorem Ended.live {α : Type} {x : HandlerM σ α} {e e' : Endpoint σ} {inbox : List SyncResponse}
    (h : Ended x e e') (ok : Ok e.core)
    (keeps : KeepsUpTo Survivable (fun e : Endpoint σ => Ok e.core) x)
    (lives : ∀ a e', x e = .ok a e' → e'.dropped = false → Live g e' inbox) :
    Ok e'.core ∧ (e'.dropped = false → Live g e' inbox) := by
  cases h with
  | returned hx => exact ⟨keeps.ok ok hx, lives _ _ hx⟩
  | threw hx =>
    have hok := keeps.error ok hx rfl
    exact ⟨hok, nofun⟩

/-- A stretch of ids leaves the core alone. -/
theorem handleResponseChainEntry_core (arg : ChainEntry) (e : Endpoint σ) :
    (handleResponseChainEntry C arg e).core = e.core := by
  unfold handleResponseChainEntry
  cases arg.mBlockIds with
  | nil => rfl
  | cons front rest =>
    simp only
    by_cases hknown : ¬ C.haveBlock e.core front = true
    · rw [if_pos hknown]
      rfl
    · rw [if_neg hknown, requestMissingObjects_core]
      split
      · rfl
      · rfl

/-- A delivery keeps the core as it should be. -/
theorem handleResponseGetObjects_keeps (hC : CoreOf C g Ok) (t : τ) (arg : ObjectsEntry) :
    KeepsUpTo Survivable (fun e : Endpoint σ => Ok e.core)
      (handleResponseGetObjects C env t arg) := by
  intro e ok
  unfold handleResponseGetObjects
  by_cases hlow : arg.currentBlockchainHeight < e.context.mLastResponseHeight
  · rw [if_pos hlow]
    exact ok
  · rw [if_neg hlow]
    simp only
    have hdel : Delivered C env arg.blocks _ (checkDelivered C env arg.blocks 0 { e with context :=
        { e.context with mRemoteBlockchainHeight := arg.currentBlockchainHeight } }) :=
      checkDelivered_delivered arg.blocks 0 _
    generalize checkDelivered C env arg.blocks 0 _ = r at hdel ⊢
    cases hdel with
    | dropped hcore _ _ =>
      show Ok _
      rw [hcore]
      exact ok
    | idle => exact ok
    | all requested _ _ =>
      simp only
      by_cases hreq : requested ≠ ∅
      · rw [if_pos hreq]
        exact ok
      · rw [if_neg hreq]
        have hrun := processDelivered_keeps hC t arg.blocks { e with context := { e.context with
          mRemoteBlockchainHeight := arg.currentBlockchainHeight
          mRequestedObjects := requested } } ok
        generalize processDelivered C t arg.blocks _ = r at hrun ⊢
        match r with
        | .error ex e' => exact hrun
        | .ok false e' => exact hrun
        | .ok true e' =>
          show Ok (requestMissingObjects C true e').2.core
          rw [requestMissingObjects_core]
          exact hrun

/-- Any answer keeps the core as it should be. -/
theorem handleResponse_keeps (hC : CoreOf C g Ok) (t : τ) (a : SyncResponse) :
    KeepsUpTo Survivable (fun e : Endpoint σ => Ok e.core) (handleResponse C env t a) := by
  cases a with
  | chainEntry arg =>
    intro e ok
    show Ok (handleResponseChainEntry C arg e).core
    rw [handleResponseChainEntry_core]
    exact ok
  | objects arg => exact handleResponseGetObjects_keeps hC t arg

/-- After any answer the connection is alive, or dropped. -/
theorem handleResponse_live (hC : CoreOf C g Ok) {t : τ} {a : SyncResponse}
    {rest : List SyncResponse} {e e' : Endpoint σ} (ok : Ok e.core) (h : Live g e (a :: rest))
    (hend : handleResponse C env t a e = .ok () e') (hopen : e'.dropped = false) :
    Live g e' rest := by
  have hrest : rest = [] := by
    obtain ⟨-, phase⟩ := h
    generalize e.outbox = outbox at phase
    cases phase with
    | told => rfl
    | fetched => rfl
  subst hrest
  cases a with
  | chainEntry arg =>
    cases hend
    exact handleResponseChainEntry_live hC ok h hopen
  | objects arg => exact handleResponseGetObjects_live hC ok h hend hopen

/-- **Every step keeps it.** By cases on the event. -/
theorem SyncStep.inv (hC : CoreOf C g Ok) {ev : SyncEvent σ τ} {s s' : Session σ}
    (h : SyncStep C env g Ok ev s s') (hs : SessionInv env g Ok s) (safe : KeepsAnnounced ev s) :
    SessionInv env g Ok s' := by
  obtain ⟨core, peer, live⟩ := hs
  cases h with
  | syncData hopen =>
    refine ⟨?_, peer, (live hopen).syncData _ _⟩
    rw [processPayloadSyncData_core]
    exact core
  | callback hopen hcount =>
    refine ⟨?_, peer, fun _ => (live hopen).callback hC core hcount⟩
    rw [onCallback_core]
    exact core
  | newBlock hopen ended =>
    obtain ⟨core', live'⟩ := ended.live core (handleNotifyNewBlock_keeps hC _ _)
      fun _ _ hx => handleNotifyNewBlock_live hC core (live hopen) hx
    exact ⟨core', peer, live'⟩
  | newTransactions hopen ended =>
    obtain ⟨core', live'⟩ := ended.live core (handleNotifyNewTransactions_keeps hC _ _)
      fun _ _ hx => handleNotifyNewTransactions_live (live hopen) hx
    exact ⟨core', peer, live'⟩
  | @answers _ r rest a hopen next answered =>
    refine ⟨core, peer, ?_⟩
    intro _
    obtain ⟨sound, phase⟩ := live hopen
    rw [next] at phase
    refine ⟨sound, (phase.answered peer ?_).2 a answered⟩
    rintro txs blocks rfl
    unfold KeepsAnnounced at safe
    rw [next] at safe
    exact safe
  | @silent _ r rest hopen next refused =>
    obtain ⟨-, phase⟩ := live hopen
    rw [next] at phase
    -- an honest peer has an answer to whatever it is asked in that phase
    refine absurd refused (phase.answered peer ?_).1
    rintro txs blocks rfl
    unfold KeepsAnnounced at safe
    rw [next] at safe
    exact safe
  | breaks hopen next threw => exact ⟨core, peer, nofun⟩
  | @handle _ t a rest e hopen next ended =>
    have hlive := live hopen
    rw [next] at hlive
    obtain ⟨core', live'⟩ := ended.live core (handleResponse_keeps hC _ _)
      fun _ _ hx => handleResponse_live hC core hlive hx
    exact ⟨core', peer, live'⟩
  | peerMoves honest heavier => exact ⟨core, honest, live⟩
  | coreMoves ok =>
    refine ⟨ok, peer, ?_⟩
    intro hopen
    exact ⟨(live hopen).sound, (live hopen).phase⟩

/-- A connection that has just been made. -/
theorem Session.Fresh.inv {s : Session σ} (h : s.Fresh env g Ok) : SessionInv env g Ok s := by
  refine ⟨h.core, h.peer, ?_⟩
  intro _
  refine ⟨?_, ?_⟩
  · rw [h.errors]
    exact List.not_mem_nil
  · rw [h.context, h.outbox, h.inbox]
    exact .quiet nofun rfl rfl rfl

/-- **It holds along every run**, by induction over the run. -/
theorem SyncRun.inv (hC : CoreOf C g Ok) {s : Session σ}
    (h : SyncRun C env g Ok KeepsAnnounced s) : SessionInv env g Ok s := by
  induction h with
  | fresh h => exact h.inv
  | step _ safe next ih => exact next.inv hC ih safe

/-- While a node catches up, something is under way. -/
theorem Phase.under_way {c : ConnectionContext} {outbox : List SyncRequest}
    {inbox : List SyncResponse} (h : Phase g c outbox inbox) (hstate : c.mState = .synchronizing) :
    outbox ≠ [] ∨ inbox ≠ [] ∨ 0 < c.mCallbackRequestCount := by
  cases h with
  | quiet state => exact absurd hstate state
  | called _ callbacks => exact .inr (.inr (by omega))
  | asking => exact .inl nofun
  | told => exact .inr (.inl nofun)
  | fetching => exact .inl nofun
  | fetched => exact .inr (.inl nofun)

end

end DarknetSpace
