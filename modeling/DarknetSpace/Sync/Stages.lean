import DarknetSpace.Sync.NodeSession
import DarknetSpace.Format.RoundTrip
import Mathlib.Data.Finset.Lattice.Lemmas

/-!
# The stages of catching up

One connection, a peer whose chain stays as it is (`SteadyPeer`), and no other source
of blocks (`Alone`). A run of it is an `Exchange`. From a request for the chain on the
connection is in one of the stages of `Stage`: the request is out, or its answer is on
the way, or blocks have been asked for, or are on the way, or nothing is under way. What is asked for next is one
of a few requests (`Requests`), read off `request_missing_objects`.

Two answers matter. A stretch of ids moves the connection on, unless all its ids are
known already (`handleResponseChainEntry_stage`). And a delivery either teaches a block
or has the core turn its last block away without setting a flag
(`processDelivered_last`, `Missing.learns`); the blocks come as the peer has them,
since what is sent can be read back (`SteadyPeer.sends`).
-/

namespace DarknetSpace

open StateExn

/-- A peer whose blocks can all be read back from the blobs it sends. -/
structure SteadyPeer (env : Env) (p : Node) : Prop where
  indexed : IndexedChain env p.chain
  readable : ∀ e ∈ p.chain.mBlocks, parseAndValidateBlockFromBlob (blockToBlob e.bl) = some e.bl

section

variable {σ τ : Type}

/-- What happens on a connection with a peer that stays at `p` when nobody else
sends blocks. -/
def Alone (env : Env) (p : Node) : SyncEvent σ τ → Prop
  | .syncData hshd _ => hshd = p.getPayloadSyncData env
  | .callback | .newTransactions _ _ | .answer | .handle _ => True
  | .newBlock _ _ | .peerMoves _ | .coreMoves _ => False

variable (C : SyncCore σ τ) (env : Env)

/-- The core returns without a flag set, and does not have the block. -/
def TurnsAway (t : τ) (blob : Blob) (c : σ) : Prop :=
  ∃ b bvc c', parseAndValidateBlockFromBlob blob = some b ∧
    C.handleIncomingBlock t blob c = .ok bvc c' ∧ bvc.mVerifivationFailed = false ∧
    bvc.mMarkedAsOrphaned = false ∧ C.haveBlock c' (getBlockHash env b) = false

/-- A stretch of ids lists an unknown one or reaches the top, and the last block
of a delivery is not turned away. -/
def Fruitful (ev : SyncEvent σ τ) (s : Session σ) : Prop :=
  match ev, s.inbox with
  | .handle _, .chainEntry arg :: _ =>
    (∃ id ∈ arg.mBlockIds, C.haveBlock s.here.core id = false) ∨
      arg.totalHeight ≤ arg.startHeight + arg.mBlockIds.length
  | .handle t, .objects arg :: _ =>
    ∀ before entry e₀ e₁ e₂, arg.blocks = before ++ [entry] → e₀.core = s.here.core →
      processDelivered C t before e₀ = .ok true e₁ →
      handleTxs C t true .txFailed entry.txs e₁ = .ok true e₂ →
      ¬ TurnsAway C env t entry.block e₂.core
  | _, _ => True

/-- `NOTIFY_REQUEST_CHAIN` goes out. -/
def Asks (ids : List Hash) (s s' : Session σ) : Prop :=
  s'.here.outbox = s.here.outbox ++ [.chain ids]

/-- A block becomes known. -/
def Learns (s s' : Session σ) : Prop :=
  ∃ id, C.haveBlock s.here.core id = false ∧ C.haveBlock s'.here.core id = true

/-- One event of the exchange, or none: the run may have come to its end. -/
inductive ExchangeStep (g : Hash) (Ok : σ → Prop) (p : Node) (s : Session σ) :
    Option (SyncEvent σ τ) → Session σ → Prop where
  | rest : ExchangeStep g Ok p s none s
  | event {ev : SyncEvent σ τ} {s' : Session σ} (step : SyncStep C env g Ok ev s s')
      (alone : Alone env p ev) : ExchangeStep g Ok p s (some ev) s'

/-- A connection with a peer that stays at `p`, from its beginning on. -/
structure Exchange (g : Hash) (Ok : σ → Prop) (p : Node) (states : Nat → Session σ)
    (events : Nat → Option (SyncEvent σ τ)) : Prop where
  peer : SteadyPeer env p
  context : (states 0).here.context = .fresh
  outbox : (states 0).here.outbox = []
  inbox : (states 0).inbox = []
  start : (states 0).peer = p
  step : ∀ k, ExchangeStep C env g Ok p (states k) (events k) (states (k + 1))

/-! ## Stages -/

/-- The blocks asked for are the ones requested, and unknown. -/
structure Missing (c : σ) (x : ConnectionContext) (blocks : List Hash) : Prop where
  some' : blocks ≠ []
  requested : x.mRequestedObjects = blocks.toFinset
  unknown : ∀ id ∈ blocks, C.haveBlock c id = false

/-- Where a connection is; `spent` when a request for the chain has gone out and
nothing has been learnt since. -/
inductive Stage (p : Node) (spent : Bool) (c : σ) (x : ConnectionContext) :
    List SyncRequest → List SyncResponse → Prop where
  | quiet (state : x.mState ≠ .synchronizing) (callbacks : x.mCallbackRequestCount = 0)
      (needed : x.mNeededObjects = []) (requested : x.mRequestedObjects = ∅)
      (top : spent = true → C.haveBlock c (p.chain.getTopBlockId env) = true) :
      Stage p spent c x [] []
  | called (state : x.mState = .synchronizing) (callbacks : x.mCallbackRequestCount = 1)
      (needed : x.mNeededObjects = []) (requested : x.mRequestedObjects = ∅)
      (fresh : spent = false) : Stage p spent c x [] []
  | asking {ids : List Hash} (state : x.mState = .synchronizing)
      (callbacks : x.mCallbackRequestCount = 0)
      (needed : x.mNeededObjects = []) (requested : x.mRequestedObjects = ∅) :
      Stage p spent c x [.chain ids] []
  | told {start : Nat} (state : x.mState = .synchronizing)
      (callbacks : x.mCallbackRequestCount = 0)
      (needed : x.mNeededObjects = []) (requested : x.mRequestedObjects = ∅) :
      Stage p spent c x [] [.chainEntry (p.chain.stretchFrom env start)]
  | stalled (state : x.mState = .synchronizing) (callbacks : x.mCallbackRequestCount = 0) :
      Stage p spent c x [] []
  | fetching {blocks : List Hash} (state : x.mState = .synchronizing)
      (callbacks : x.mCallbackRequestCount = 0) (missing : spent = true → Missing C c x blocks) :
      Stage p spent c x [.getObjects [] blocks] []
  | fetched {blocks : List Hash} {arg : ObjectsEntry} (state : x.mState = .synchronizing)
      (callbacks : x.mCallbackRequestCount = 0) (missing : spent = true → Missing C c x blocks)
      (sent : p.handleGetObjects [] blocks = .ok arg) : Stage p spent c x [] [.objects arg]

/-- A connection of the exchange. -/
structure Going (p : Node) (spent : Bool) (s : Session σ) : Prop where
  peer : s.peer = p
  stage : s.here.dropped = false → Stage C env p spent s.here.core s.here.context s.here.outbox s.inbox

/-- What one event comes to. -/
inductive Outcome (p : Node) (spent : Bool) (s s' : Session σ) : Prop where
  | on (going : Going C env p spent s') (silent : ∀ ids, ¬ Asks ids s s')
  | asked (may : spent = false ∨ Learns C s s') (going : Going C env p true s')
  | learnt (learns : Learns C s s') (going : Going C env p false s')
      (silent : ∀ ids, ¬ Asks ids s s')

end

/-! ## What the requests ask for -/

section

variable {σ τ : Type} {C : SyncCore σ τ} {env : Env} {p : Node}

theorem takeNeeded_subset {skip : Hash → Bool} {needed : List Hash} {count : Nat} :
    ∀ id ∈ (takeNeeded skip needed count).1, id ∈ needed := by
  induction needed generalizing count with
  | nil => exact nofun
  | cons first rest ih =>
    intro id hid
    unfold takeNeeded at hid
    by_cases hcount : count < blocksSynchronizingDefaultCount
    · rw [if_pos hcount] at hid
      by_cases hskip : skip first = true
      · rw [if_pos hskip] at hid
        exact List.mem_cons_of_mem _ (ih id hid)
      · rw [if_neg hskip] at hid
        rcases List.mem_cons.1 hid with rfl | hid
        · exact List.mem_cons_self
        · exact List.mem_cons_of_mem _ (ih id hid)
    · rw [if_neg hcount] at hid
      cases hid

theorem takeNeeded_ne_nil {needed : List Hash} (h : needed ≠ []) :
    (takeNeeded (fun _ => false) needed 0).1 ≠ [] := by
  cases needed with
  | nil => exact absurd rfl h
  | cons first rest =>
    unfold takeNeeded
    rw [if_pos (by decide), if_neg Bool.false_ne_true]
    exact List.cons_ne_nil _ _

/-- `NOTIFY_REQUEST_GET_OBJECTS` is posted. -/
def askFor (asked left : List Hash) (e : Endpoint σ) : Endpoint σ :=
  { e with context := { e.context with
    mNeededObjects := left
    mRequestedObjects := e.context.mRequestedObjects ∪ asked.toFinset } }.post
      (.getObjects [] asked)

/-- How `request_missing_objects` goes on. -/
inductive Requests (C : SyncCore σ τ) (check : Bool) (e : Endpoint σ) : Endpoint σ → Prop where
  | objects (needed : e.context.mNeededObjects ≠ []) {asked left : List Hash}
      (taken : takeNeeded (fun id => check && C.haveBlock e.core id) e.context.mNeededObjects 0 =
        (asked, left)) :
      Requests C check e (askFor asked left e)
  | chain (needed : e.context.mNeededObjects = [])
      (more : e.context.mLastResponseHeight < heightBelow e.context.mRemoteBlockchainHeight) :
      Requests C check e (requestChain C e)
  | done (final : e.context.FinalCondition) :
      Requests C check e { e with context := { e.context with mState := .normal } }
  | failed (needed : e.context.mNeededObjects = []) (broken : ¬ e.context.FinalCondition) :
      Requests C check e (e.logError .finalConditionFailed)

theorem requestMissingObjects_requests (check : Bool) (e : Endpoint σ) :
    Requests C check e (requestMissingObjects C check e).2 := by
  unfold requestMissingObjects
  by_cases hneed : e.context.mNeededObjects ≠ []
  · rw [if_pos hneed]
    exact .objects hneed rfl
  · rw [if_neg hneed]
    by_cases hmore : e.context.mLastResponseHeight < heightBelow e.context.mRemoteBlockchainHeight
    · rw [if_pos hmore]
      exact .chain (not_not.1 hneed) hmore
    · rw [if_neg hmore]
      by_cases hfin : e.context.FinalCondition
      · rw [if_pos hfin]
        exact .done hfin
      · rw [if_neg hfin]
        exact .failed (not_not.1 hneed) hfin

theorem not_asks_of_same {s s' : Session σ} (h : s'.here.outbox = s.here.outbox) (ids : List Hash) :
    ¬ Asks ids s s' := by
  intro hasks
  have hlen := congrArg List.length (h.symm.trans hasks)
  rw [List.length_append, List.length_singleton] at hlen
  omega

/-! ## A stretch of ids -/

theorem stretch_bounds {start : Nat}
    (h : (p.chain.stretchFrom env start).mBlockIds ≠ []) :
    start + (p.chain.stretchFrom env start).mBlockIds.length ≤
      (p.chain.stretchFrom env start).totalHeight := by
  have hlen : (blockIds env p.chain.mBlocks).length = p.chain.mBlocks.length := List.length_map ..
  have hpos := List.length_pos_of_ne_nil h
  show start + (((blockIds env p.chain.mBlocks).drop start).take _).length ≤ p.chain.mBlocks.length
  change 0 < (((blockIds env p.chain.mBlocks).drop start).take _).length at hpos
  rw [List.length_take, List.length_drop, hlen] at hpos ⊢
  omega

/-- A stretch that reaches the top ends in it. -/
theorem stretch_top {start : Nat} (h : (p.chain.stretchFrom env start).mBlockIds ≠ [])
    (htop : (p.chain.stretchFrom env start).totalHeight ≤
      start + (p.chain.stretchFrom env start).mBlockIds.length) :
    p.chain.getTopBlockId env ∈ (p.chain.stretchFrom env start).mBlockIds := by
  have hlen : (blockIds env p.chain.mBlocks).length = p.chain.mBlocks.length := List.length_map ..
  have hpos := List.length_pos_of_ne_nil h
  change p.chain.mBlocks.length ≤ start +
    (((blockIds env p.chain.mBlocks).drop start).take _).length at htop
  change 0 < (((blockIds env p.chain.mBlocks).drop start).take _).length at hpos
  rw [List.length_take, List.length_drop, hlen] at hpos htop
  have hne : p.chain.mBlocks ≠ [] := by
    intro h0
    rw [h0, List.length_nil] at hpos
    omega
  have htopId : p.chain.getTopBlockId env = getBlockHash env (p.chain.mBlocks.getLast hne).bl := by
    unfold Storage.getTopBlockId
    rw [List.getLast?_eq_getLast_of_ne_nil hne]
  show _ ∈ ((blockIds env p.chain.mBlocks).drop start).take _
  rw [List.take_of_length_le (by rw [List.length_drop, hlen]; omega), htopId]
  apply List.mem_of_getElem? (i := p.chain.mBlocks.length - 1 - start)
  rw [List.getElem?_drop, blockIds, List.getElem?_map,
    show start + (p.chain.mBlocks.length - 1 - start) = p.chain.mBlocks.length - 1 by omega,
    ← List.getLast?_eq_getElem?, List.getLast?_eq_getLast_of_ne_nil hne]
  rfl

/-- A stretch of ids is handled: the connection is dropped, the missing blocks
are asked for, or the node is in step with the top. -/
theorem handleResponseChainEntry_stage (spent : Bool) {e : Endpoint σ} {start : Nat}
    (outbox : e.outbox = []) (state : e.context.mState = .synchronizing)
    (callbacks : e.context.mCallbackRequestCount = 0) (needed : e.context.mNeededObjects = [])
    (requested : e.context.mRequestedObjects = ∅)
    (fruitful : (∃ id ∈ (p.chain.stretchFrom env start).mBlockIds, C.haveBlock e.core id = false) ∨
      (p.chain.stretchFrom env start).totalHeight ≤
        start + (p.chain.stretchFrom env start).mBlockIds.length)
    {e' : Endpoint σ} (he : Told C (p.chain.stretchFrom env start) e e') :
    (∀ ids, e'.outbox ≠ [.chain ids]) ∧
      (e'.dropped = false → Stage C env p spent e'.core e'.context e'.outbox []) := by
  cases he with
  | dropped hbox hd =>
    rw [hbox, outbox, hd]
    exact ⟨nofun, nofun⟩
  | listed hsome =>
    have hbounds := stretch_bounds hsome
    have hpos := List.length_pos_of_ne_nil hsome
    have hneed : (noted C (p.chain.stretchFrom env start) e).context.mNeededObjects =
        (p.chain.stretchFrom env start).mBlockIds.filter fun id => !C.haveBlock e.core id := by
      unfold noted
      rw [needed, List.nil_append]
    -- nothing unknown: then the stretch reaches the top
    have hknown : (noted C (p.chain.stretchFrom env start) e).context.mNeededObjects = [] →
        ∀ id ∈ (p.chain.stretchFrom env start).mBlockIds, C.haveBlock e.core id = true := by
      intro hnil id hid
      rw [hneed, List.filter_eq_nil_iff] at hnil
      have := hnil id hid
      rwa [Bool.not_eq_true', Bool.not_eq_false] at this
    have hreached : (noted C (p.chain.stretchFrom env start) e).context.mNeededObjects = [] →
        (p.chain.stretchFrom env start).totalHeight ≤
          start + (p.chain.stretchFrom env start).mBlockIds.length := by
      intro hnil
      rcases fruitful with ⟨id, hid, hunknown⟩ | hreach
      · rw [hknown hnil id hid] at hunknown
        cases hunknown
      · exact hreach
    have hreq := requestMissingObjects_requests (C := C) false
      (noted C (p.chain.stretchFrom env start) e)
    generalize (requestMissingObjects C false (noted C (p.chain.stretchFrom env start) e)).2 = e'
      at hreq ⊢
    cases hreq with
    | @objects some' asked left taken =>
      have hbox : (askFor asked left (noted C (p.chain.stretchFrom env start) e)).outbox =
          [.getObjects [] asked] := congrArg (· ++ _) outbox
      rw [hbox]
      have hasked : asked = (takeNeeded (fun _ => false) _ 0).1 := (congrArg Prod.fst taken).symm
      refine ⟨nofun, fun _ => .fetching state callbacks fun _ => ⟨?_, ?_, ?_⟩⟩
      · rw [hasked]
        exact takeNeeded_ne_nil some'
      · show e.context.mRequestedObjects ∪ asked.toFinset = asked.toFinset
        rw [requested, Finset.empty_union]
      · intro id hid
        rw [hasked] at hid
        have hmem := takeNeeded_subset id hid
        rw [hneed, List.mem_filter, Bool.not_eq_true'] at hmem
        exact hmem.2
    | chain none more =>
      have hlast := hreached none
      change start + _ - 1 < heightBelow (p.chain.stretchFrom env start).totalHeight at more
      rw [heightBelow, if_neg (by omega)] at more
      omega
    | done final =>
      refine ⟨?_, fun _ => ?_⟩
      · show ∀ ids, e.outbox ≠ [.chain ids]
        rw [outbox]
        exact nofun
      · show Stage C env p spent e.core _ e.outbox []
        rw [outbox]
        refine .quiet nofun callbacks final.2.1 requested fun _ => ?_
        exact hknown final.2.1 _ (stretch_top hsome (hreached final.2.1))
    | failed none broken =>
      have hlast := hreached none
      refine absurd ⟨?_, none, requested⟩ broken
      show start + _ - 1 = heightBelow (p.chain.stretchFrom env start).totalHeight
      rw [heightBelow, if_neg (by omega)]
      omega

/-! ## A delivery -/

theorem getBlocks_mem {s : Storage} (h : IndexedChain env s) (ids : List Hash) :
    ∀ b ∈ (s.getBlocks ids).1, getBlockHash env b ∈ ids ∧ ∃ e ∈ s.mBlocks, e.bl = b := by
  induction ids with
  | nil => exact nofun
  | cons id rest ih =>
    intro b hb
    unfold Storage.getBlocks at hb
    cases hidx : indexHeight s.mBlocksIndex id with
    | none =>
      rw [hidx] at hb
      obtain ⟨hin, he⟩ := ih b hb
      exact ⟨List.mem_cons_of_mem _ hin, he⟩
    | some height =>
      simp only [hidx] at hb
      cases hat : s.mBlocks[height]? with
      | none =>
        rw [hat] at hb
        cases hb
      | some e =>
        rw [hat] at hb
        rcases List.mem_cons.1 hb with rfl | hb
        · rw [h.index] at hidx
          obtain ⟨e', he', hid⟩ := getElem?_blockIds.1 (getElem?_of_indexHeight hidx)
          rw [hat] at he'
          cases he'
          rw [hid]
          exact ⟨List.mem_cons_self, e, List.mem_of_getElem? hat, rfl⟩
        · obtain ⟨hin, he⟩ := ih b hb
          exact ⟨List.mem_cons_of_mem _ hin, he⟩

theorem completeEntries_mem {n : Node} {bs : List Block} {entries : List BlockCompleteEntry}
    {missed : List Hash} (h : n.completeEntries bs = .ok (entries, missed)) :
    ∀ entry ∈ entries, ∃ b ∈ bs, entry.block = blockToBlob b := by
  induction bs generalizing entries missed with
  | nil =>
    cases h
    exact nofun
  | cons b rest ih =>
    unfold Node.completeEntries at h
    cases htxs : n.getTransactions b.txHashes with
    | error ex =>
      rw [htxs] at h
      cases h
    | ok r =>
      rw [htxs] at h
      cases hrest : n.completeEntries rest with
      | error ex =>
        rw [hrest] at h
        cases h
      | ok r' =>
        rw [hrest] at h
        cases h
        intro entry hentry
        rcases List.mem_cons.1 hentry with rfl | hentry
        · exact ⟨b, List.mem_cons_self, rfl⟩
        · obtain ⟨b', hb', hblob⟩ := ih hrest entry hentry
          exact ⟨b', List.mem_cons_of_mem _ hb', hblob⟩

/-- What the peer sends is what it was asked for. -/
theorem SteadyPeer.sends (h : SteadyPeer env p) {blocks : List Hash} {arg : ObjectsEntry}
    (sent : p.handleGetObjects [] blocks = .ok arg) :
    ∀ entry ∈ arg.blocks, ∃ b, parseAndValidateBlockFromBlob entry.block = some b ∧
      getBlockHash env b ∈ blocks := by
  unfold Node.handleGetObjects at sent
  simp only at sent
  cases hentries : p.completeEntries (p.chain.getBlocks blocks).1 with
  | error ex =>
    rw [hentries] at sent
    cases sent
  | ok r =>
    rw [hentries] at sent
    cases sent
    intro entry hentry
    obtain ⟨b, hb, hblob⟩ := completeEntries_mem hentries entry hentry
    obtain ⟨hin, e, he, rfl⟩ := getBlocks_mem h.indexed blocks b hb
    rw [hblob]
    exact ⟨e.bl, h.readable e he, hin⟩

/-- A delivery that went through: its last block was the last thing the core
took. -/
theorem processDelivered_last {t : τ} {before : List BlockCompleteEntry}
    {entry : BlockCompleteEntry} {e e' : Endpoint σ}
    (h : processDelivered C t (before ++ [entry]) e = .ok true e') :
    ∃ e₁ e₂ bvc, processDelivered C t before e = .ok true e₁ ∧
      handleTxs C t true .txFailed entry.txs e₁ = .ok true e₂ ∧
      C.handleIncomingBlock t entry.block e₂.core = .ok bvc e'.core ∧
      bvc.mVerifivationFailed = false ∧ bvc.mMarkedAsOrphaned = false := by
  induction before generalizing e with
  | nil =>
    rw [List.nil_append] at h
    unfold processDelivered at h
    obtain ⟨done, e₁, htxs, h⟩ := bind_eq_ok.1 h
    cases done with
    | false => cases h
    | true =>
      rw [if_pos rfl] at h
      obtain ⟨bvc, e₂, hcall, h⟩ := bind_eq_ok.1 h
      obtain ⟨c, hcore, rfl⟩ := onCore_eq_ok hcall
      by_cases hf : bvc.mVerifivationFailed = true
      · rw [if_pos hf] at h
        cases h
      · rw [if_neg hf] at h
        by_cases ho : bvc.mMarkedAsOrphaned = true
        · rw [if_pos ho] at h
          cases h
        · rw [if_neg ho] at h
          cases h
          exact ⟨e, e₁, bvc, rfl, htxs, hcore, Bool.eq_false_iff.2 hf, Bool.eq_false_iff.2 ho⟩
  | cons first rest ih =>
    rw [List.cons_append] at h
    unfold processDelivered at h ⊢
    obtain ⟨done, e₁, htxs, h⟩ := bind_eq_ok.1 h
    cases done with
    | false => cases h
    | true =>
      rw [if_pos rfl] at h
      obtain ⟨bvc, e₂, hcall, h⟩ := bind_eq_ok.1 h
      rw [bind_of_ok htxs, if_pos rfl, bind_of_ok hcall]
      by_cases hf : bvc.mVerifivationFailed = true
      · rw [if_pos hf] at h
        cases h
      · rw [if_neg hf] at h ⊢
        by_cases ho : bvc.mMarkedAsOrphaned = true
        · rw [if_pos ho] at h
          cases h
        · rw [if_neg ho] at h ⊢
          exact ih h

/-- A delivery of missing blocks whose last one is not turned away teaches the
node that block. -/
theorem Missing.learns {e : Endpoint σ} {blocks : List Hash} {t : τ} {arg : ObjectsEntry} {c : σ}
    (h : Missing C e.core e.context blocks)
    (asked : ∀ entry ∈ arg.blocks, ∃ b, parseAndValidateBlockFromBlob entry.block = some b ∧
      getBlockHash env b ∈ e.context.mRequestedObjects)
    (empty : arg.blocks = [] → e.context.mRequestedObjects = ∅)
    (run : processDelivered C t arg.blocks (allReturned arg e) =
      .ok true { allReturned arg e with core := c })
    (taken : ∀ before entry e₀ e₁ e₂, arg.blocks = before ++ [entry] → e₀.core = e.core →
      processDelivered C t before e₀ = .ok true e₁ →
      handleTxs C t true .txFailed entry.txs e₁ = .ok true e₂ →
      ¬ TurnsAway C env t entry.block e₂.core) :
    ∃ id, C.haveBlock e.core id = false ∧ C.haveBlock c id = true := by
  have hne : arg.blocks ≠ [] := by
    intro hnil
    have hreq := empty hnil
    rw [h.requested, List.toFinset_eq_empty_iff] at hreq
    exact h.some' hreq
  obtain ⟨before, entry, hsplit⟩ : ∃ before entry, arg.blocks = before ++ [entry] :=
    ⟨_, _, (List.dropLast_append_getLast hne).symm⟩
  rw [hsplit] at run
  obtain ⟨e₁, e₂, bvc, hbefore, htxs, hcall, hf, ho⟩ := processDelivered_last run
  obtain ⟨b, hparse, hin⟩ := asked entry (hsplit ▸ List.mem_append_right _ (List.mem_singleton.2 rfl))
  rw [h.requested, List.mem_toFinset] at hin
  refine ⟨getBlockHash env b, h.unknown _ hin, ?_⟩
  have hnot := taken before entry (allReturned arg e) e₁ e₂ hsplit rfl hbefore htxs
  by_contra hunknown
  exact hnot ⟨b, bvc, c, hparse, hcall, hf, ho, Bool.eq_false_iff.2 hunknown⟩

end

end DarknetSpace
