import DarknetSpace.Sync.Session

/-!
# The node on a connection

The core behind the handler is the node: whatever it is handed, its first block
stays, so its short history always ends in the genesis block and an honest peer
always finds a fork point. With that the session results hold of the program.

`NodeOf` is what the session asks of a core, and `nodeCore_coreOf` shows that the node's
own calls keep it: a block on top, a switch, a pop and an idle tick leave the genesis
block where it is. `synchronisation_under_way` is then the theorem about the program:
the final condition of a synchronisation does not fail, unless a peer is asked for
blocks while its chain has just as many as it told last. The last section is that case,
an answer that comes one block short.
-/

namespace DarknetSpace

open StateExn

/-- A sound node of the network with genesis block `g`. -/
structure NodeOf (env : Env) (g : Hash) (n : Node) : Prop where
  sound : Sound env (fun _ => True) n
  genesis : (blockIds env n.chain.mBlocks)[0]? = some g

variable {env : Env} {g : Hash}

theorem NodeOf.of_quiet {n n' : Node} (h : NodeOf env g n) (hq : Quiet env (fun _ => True) n n') :
    NodeOf env g n' := by
  refine ⟨h.sound.of_quiet hq, ?_⟩
  rw [blockIds_congr hq.chain.blocks]
  exact h.genesis

theorem NodeOf.of_added {n n' : Node} {now : Nat} {bl : Block} (h : NodeOf env g n)
    (hr : handleBlockToMainChain env now bl (getBlockHash env bl) n = .ok .added n') :
    NodeOf env g n' := by
  obtain ⟨c⟩ := handleBlockToMainChain_added hr
  refine ⟨c.sound h.sound, ?_⟩
  have hblocks : n'.chain.mBlocks = c.m.chain.mBlocks ++ [c.entry] := by
    rw [c.chain_eq h.sound.sync]
    rfl
  have hbase : (blockIds env c.m.chain.mBlocks)[0]? = some g := by
    rw [blockIds_congr c.forgetFlags_eq]
    exact h.genesis
  rw [hblocks, blockIds, List.map_append]
  exact (List.getElem?_append_left (List.getElem?_eq_some_iff.1 hbase).1).trans hbase

theorem NodeOf.of_shortened {n n' : Node} (h : NodeOf env g n)
    (hs : Shortened env (fun _ => True) n n') : NodeOf env g n' := by
  refine ⟨hs.sound, ?_⟩
  obtain ⟨e, he⟩ := hs.blocks
  have hflags : ∀ bs, blockIds env (forgetFlags bs) = blockIds env bs := by
    intro bs
    rw [blockIds, forgetFlags, List.map_map]
    rfl
  have hids : blockIds env n.chain.mBlocks =
      blockIds env n'.chain.mBlocks ++ [getBlockHash env e.bl] := by
    rw [← hflags, he, blockIds, List.map_append, ← hflags n'.chain.mBlocks]
    rfl
  have hpos : 0 < (blockIds env n'.chain.mBlocks).length := by
    rw [blockIds, List.length_map]
    exact List.length_pos_of_ne_nil hs.nonempty
  have hgen := h.genesis
  rw [hids, List.getElem?_append_left hpos] at hgen
  exact hgen

theorem genesis_invariant (env : Env) (g : Hash) : ChainInvariant env (NodeOf env g) := by
  refine ⟨fun now bl n hn => ?_, fun now n hn => ?_, fun n _ _ _ hn => ?_⟩
  · have ho := handleBlockToMainChain_addedOrQuiet hn.sound now bl (getBlockHash env bl)
    cases hr : handleBlockToMainChain env now bl (getBlockHash env bl) n with
    | ok v n' =>
      rw [hr] at ho
      rcases ho with rfl | hq
      · exact hn.of_added hr
      · exact hn.of_quiet hq
    | error e n' =>
      rw [hr] at ho
      exact fun _ => hn.of_quiet ho
  · have ho := popBlock_shortenedOrQuiet hn.sound now
    cases hr : popBlockFromBlockchain env now n with
    | ok r n' =>
      rw [hr] at ho
      cases r with
      | true => exact hn.of_shortened ho
      | false => exact hn.of_quiet ho
    | error e n' =>
      rw [hr] at ho
      exact fun _ => hn.of_quiet ho
  · exact ⟨⟨hn.sound.index, hn.sound.outputs, hn.sound.txs, hn.sound.pool⟩, hn.genesis⟩

theorem NodeOf.history {n : Node} (h : NodeOf env g n) :
    (n.chain.getShortChainHistory env).getLast? = some g := by
  obtain ⟨e, he, hid⟩ := getElem?_blockIds.1 h.genesis
  have hpos := (List.getElem?_eq_some_iff.1 he).1
  unfold Storage.getShortChainHistory
  rw [shortHistory_eq _ hpos, List.getLast?_map, shortHeights_last, Option.map_some,
    List.getD_eq_getElem?_getD, h.genesis, Option.getD_some]

theorem nodeCore_coreOf (env : Env) (g : Hash) : CoreOf (nodeCore env) g (NodeOf env g) where
  history := fun _ h => h.history
  tx := by
    intro t txBlob kept
    refine .bind (Keeps.upTo fun n hn => ?_) fun v => (Keeps.pure _).upTo
    obtain ⟨pool, hstate, hpool⟩ := handleIncomingTx_poolOnly ((guaranteed_true env).admitted txBlob)
      t.1 kept hn.sound.pool
    rw [hstate]
    exact ⟨⟨hn.sound.index, hn.sound.outputs, hn.sound.txs, hpool⟩, hn.genesis⟩
  block := by
    intro t blockBlob
    show KeepsUpTo Survivable (NodeOf env g) (handleIncomingBlock env t.1 t.2 blockBlob)
    unfold handleIncomingBlock
    refine .ite (Keeps.pure _).upTo ?_
    cases parseAndValidateBlockFromBlob blockBlob with
    | none => exact (Keeps.pure _).upTo
    | some b =>
      exact .bind ((genesis_invariant env g).addNewBlock t.1 t.2 b) fun v => (Keeps.pure _).upTo

theorem Reachable.nodeOf {n : Node} (h : Reachable env n)
    (hg : (blockIds env n.chain.mBlocks)[0]? = some g) : NodeOf env g n :=
  ⟨(h.sound (guaranteed_true env)).1, hg⟩

theorem Reachable.honestPeer {n : Node} (h : Reachable env n)
    (hg : (blockIds env n.chain.mBlocks)[0]? = some g) : HonestPeer env g n :=
  ⟨h.indexedChain, hg⟩

/-- The node's side while it catches up. -/
def catchingUp (n : Node) (requested : Finset Hash) (remote last callbacks : Nat)
    (outbox : List SyncRequest) (errors : List SyncError) : Endpoint Node :=
  ⟨n, ⟨.synchronizing, [], requested, remote, last, callbacks⟩, outbox, errors, false, 0⟩

/-- The handshake with a peer whose top block is unknown. -/
theorem handshake {n p : Node} (behind : n.chain.haveBlock (p.chain.getTopBlockId env) = false)
    (notShorter : n.chain.getCurrentBlockchainHeight ≤ p.chain.getCurrentBlockchainHeight)
    (noCheckpoints : p.chain.mCheckpoints.getTopCheckpointHeight = 0) :
    (processPayloadSyncData (nodeCore env) (p.getPayloadSyncData env) true
      ⟨n, .fresh, [], [], false, 0⟩).2 =
      catchingUp n ∅ p.chain.getCurrentBlockchainHeight 0 1 [] [] := by
  unfold processPayloadSyncData
  have hbehind : ¬ (nodeCore env).haveBlock n (p.getPayloadSyncData env).topId = true := by
    rw [Bool.not_eq_true]
    exact behind
  have hshort : ¬ (p.getPayloadSyncData env).currentHeight <
      (nodeCore env).getCurrentBlockchainHeight n := Nat.not_lt.2 notShorter
  have hzone : (p.getPayloadSyncData env).lastCheckpointHeight = 0 := noCheckpoints
  simp only
  rw [if_neg (by simp), if_neg (by simp [ConnectionContext.fresh]), if_neg hbehind, if_neg hshort,
    if_neg (by simp [hzone])]
  rfl

/-- A node that meets a longer chain: it has asked for it. -/
theorem asked_run {Safe : SyncEvent Node (Nat × Nat) → Session Node → Prop}
    (safe : ∀ s hshd isInital, Safe (.syncData hshd isInital) s) (safe' : ∀ s, Safe .callback s)
    {n p : Node} (hn : NodeOf env g n) (hp : HonestPeer env g p)
    (behind : n.chain.haveBlock (p.chain.getTopBlockId env) = false)
    (notShorter : n.chain.getCurrentBlockchainHeight ≤ p.chain.getCurrentBlockchainHeight)
    (noCheckpoints : p.chain.mCheckpoints.getTopCheckpointHeight = 0) :
    SyncRun (nodeCore env) env g (NodeOf env g) Safe
      ⟨catchingUp n ∅ p.chain.getCurrentBlockchainHeight 0 0
        [.chain (n.chain.getShortChainHistory env)] [], p, []⟩ := by
  have run₀ : SyncRun (nodeCore env) env g (NodeOf env g) Safe
      ⟨⟨n, .fresh, [], [], false, 0⟩, p, []⟩ :=
    .fresh ⟨hn, hp, rfl, rfl, rfl, rfl, rfl⟩
  have run₁ : SyncRun (nodeCore env) env g (NodeOf env g) Safe
      ⟨catchingUp n ∅ p.chain.getCurrentBlockchainHeight 0 1 [] [], p, []⟩ := by
    rw [← handshake behind notShorter noCheckpoints]
    exact run₀.step (safe _ _ _) (.syncData rfl)
  exact run₁.step (safe' _) (.callback rfl Nat.one_pos)

/-- In every run in which no peer is asked for blocks while its chain has just
`m_last_response_height` of them, the final condition never fails on an open
connection, and a node that catches up has a callback, a request or an answer
under way. -/
theorem synchronisation_under_way {s : Session Node}
    (run : SyncRun (nodeCore env) env g (NodeOf env g) KeepsAnnounced s) :
    (s.here.dropped = true ∨ .finalConditionFailed ∉ s.here.errors) ∧
    (s.here.dropped = false → s.here.context.mState = .synchronizing →
      s.here.outbox ≠ [] ∨ s.inbox ≠ [] ∨ 0 < s.here.context.mCallbackRequestCount) := by
  have hinv := run.inv (nodeCore_coreOf env g)
  constructor
  · cases hd : s.here.dropped with
    | true => exact .inl rfl
    | false => exact .inr (hinv.live hd).sound
  · intro hopen hstate
    exact (hinv.live hopen).phase.under_way hstate

/-! ## The answer that is one block short -/

/-- A node `n` that misses one block `x` of what its peer lists, and a peer that
has changed to a chain of just `m_last_response_height` blocks when it sends
it. The peer is at `p₀` when they meet, lists from `p₁` and answers from `p₂`. -/
structure OneShort (env : Env) (g : Hash) (t : Nat × Nat) (n n' p₀ p₁ p₂ : Node) (x : Block)
    (arg : ChainEntry) (objs : ObjectsEntry) : Prop where
  node : NodeOf env g n
  first : HonestPeer env g p₀
  second : HonestPeer env g p₁
  third : HonestPeer env g p₂
  longer : cumulativeDifficulty p₀.chain.mBlocks < cumulativeDifficulty p₁.chain.mBlocks
  heavier : cumulativeDifficulty p₁.chain.mBlocks < cumulativeDifficulty p₂.chain.mBlocks
  behind : n.chain.haveBlock (p₀.chain.getTopBlockId env) = false
  notShorter : n.chain.getCurrentBlockchainHeight ≤ p₀.chain.getCurrentBlockchainHeight
  noCheckpoints : p₀.chain.mCheckpoints.getTopCheckpointHeight = 0
  listed : p₁.answer env (.chain (n.chain.getShortChainHistory env)) = .ok (some (.chainEntry arg))
  front : ∃ id rest, arg.mBlockIds = id :: rest ∧ n.chain.haveBlock id = true
  within : arg.startHeight + arg.mBlockIds.length - 1 ≤ arg.totalHeight
  missing : (arg.mBlockIds.filter fun id => !n.chain.haveBlock id) = [getBlockHash env x]
  sent : p₂.answer env (.getObjects [] [getBlockHash env x]) = .ok (some (.objects objs))
  blocks : objs.blocks = [⟨blockToBlob x, []⟩]
  reads : parseAndValidateBlockFromBlob (blockToBlob x) = some x
  plain : x.txHashes = []
  added : handleIncomingBlock env t.1 t.2 (blockToBlob x) n = .ok BlockVerdict.added.2 n'
  gap : objs.currentBlockchainHeight = arg.startHeight + arg.mBlockIds.length - 1
  positive : 0 < objs.currentBlockchainHeight

namespace OneShort

variable {t : Nat × Nat} {n n' p₀ p₁ p₂ : Node} {x : Block} {arg : ChainEntry}
  {objs : ObjectsEntry}

theorem entry (h : OneShort env g t n n' p₀ p₁ p₂ x arg objs) (remote : Nat) :
    handleResponseChainEntry (nodeCore env) arg (catchingUp n ∅ remote 0 0 [] []) =
      catchingUp n {getBlockHash env x} arg.totalHeight objs.currentBlockchainHeight 0
        [.getObjects [] [getBlockHash env x]] [] := by
  obtain ⟨id, rest, hids, hknown⟩ := h.front
  have hmissing := h.missing
  have hwithin := h.within
  have hgap := h.gap
  rw [hids] at hmissing hwithin hgap
  have hknown' : (nodeCore env).haveBlock n id = true := hknown
  unfold handleResponseChainEntry
  rw [hids]
  simp only [catchingUp]
  simp only [hknown', not_true_eq_false, if_false, Nat.not_lt.2 hwithin]
  have hfilter : (id :: rest).filter (fun id => !(nodeCore env).haveBlock n id) =
    [getBlockHash env x] := hmissing
  simp only [hfilter, List.nil_append, ← hgap]
  unfold requestMissingObjects
  rw [if_pos (List.cons_ne_nil _ _)]
  simp [takeNeeded, blocksSynchronizingDefaultCount, Endpoint.post]

theorem delivery (h : OneShort env g t n n' p₀ p₁ p₂ x arg objs) (remote : Nat) :
    handleResponseGetObjects (nodeCore env) env t objs
        (catchingUp n {getBlockHash env x} remote objs.currentBlockchainHeight 0 [] []) =
      .ok () (catchingUp n' ∅ objs.currentBlockchainHeight objs.currentBlockchainHeight 0 []
        [.finalConditionFailed]) := by
  have hpos := h.positive
  unfold handleResponseGetObjects
  simp only [catchingUp, Nat.lt_irrefl, if_false, h.blocks]
  have hcheck : checkDelivered (nodeCore env) env [⟨blockToBlob x, []⟩] 0
      ⟨n, ⟨.synchronizing, [], {getBlockHash env x}, objs.currentBlockchainHeight,
        objs.currentBlockchainHeight, 0⟩, [], [], false, 0⟩ =
      (true, catchingUp n ∅ objs.currentBlockchainHeight objs.currentBlockchainHeight 0 [] []) := by
    simp [checkDelivered, h.reads, h.plain, catchingUp]
  rw [hcheck]
  simp only [catchingUp, ne_eq, not_true_eq_false, if_false]
  have hprocess : processDelivered (nodeCore env) t [⟨blockToBlob x, []⟩]
      ⟨n, ⟨.synchronizing, [], ∅, objs.currentBlockchainHeight,
        objs.currentBlockchainHeight, 0⟩, [], [], false, 0⟩ =
      .ok true (catchingUp n' ∅ objs.currentBlockchainHeight objs.currentBlockchainHeight 0 [] []) := by
    have hcall : onCore ((nodeCore env).handleIncomingBlock t (blockToBlob x))
        ⟨n, ⟨.synchronizing, [], ∅, objs.currentBlockchainHeight,
          objs.currentBlockchainHeight, 0⟩, [], [], false, 0⟩ =
        .ok BlockVerdict.added.2
          (catchingUp n' ∅ objs.currentBlockchainHeight objs.currentBlockchainHeight 0 [] []) :=
      zoom_of_ok h.added
    have htxs : ∀ e, handleTxs (nodeCore env) t true .txFailed [] e = .ok true e := fun _ => rfl
    unfold processDelivered
    rw [bind_of_ok (htxs _), if_pos rfl, bind_of_ok hcall]
    rfl
  rw [hprocess]
  simp only
  have hbelow : heightBelow objs.currentBlockchainHeight = objs.currentBlockchainHeight - 1 :=
    if_neg (by omega)
  refine congrArg _ (congrArg Prod.snd (requestMissingObjects_failed true rfl ?_ ?_))
  · show ¬ objs.currentBlockchainHeight < heightBelow objs.currentBlockchainHeight
    omega
  · rintro ⟨hlast, -⟩
    change objs.currentBlockchainHeight = heightBelow objs.currentBlockchainHeight at hlast
    omega

/-- Such a connection stays open, catching up, with nothing under way. -/
theorem stuck (h : OneShort env g t n n' p₀ p₁ p₂ x arg objs) :
    SyncRun (nodeCore env) env g (NodeOf env g) (fun _ _ => True)
      ⟨catchingUp n' ∅ objs.currentBlockchainHeight objs.currentBlockchainHeight 0 []
        [.finalConditionFailed], p₂, []⟩ := by
  have run₂ : SyncRun (nodeCore env) env g (NodeOf env g) (fun _ _ => True) _ :=
    asked_run (fun _ _ _ => trivial) (fun _ => trivial) h.node h.first h.behind h.notShorter
      h.noCheckpoints
  -- the answer comes from a longer chain
  have run₃ := run₂.step trivial (.peerMoves h.second h.longer)
  have run₄ := run₃.step trivial (.answers rfl rfl h.listed)
  have run₅ : SyncRun (nodeCore env) env g (NodeOf env g) (fun _ _ => True)
      ⟨catchingUp n {getBlockHash env x} arg.totalHeight objs.currentBlockchainHeight 0
        [.getObjects [] [getBlockHash env x]] [], p₁, []⟩ := by
    refine run₄.step trivial (.handle (t := t) rfl rfl (.returned (a := ()) ?_))
    exact congrArg _ (h.entry _)
  -- and the block from a heavier one with fewer blocks
  have run₆ := run₅.step trivial (.peerMoves h.third h.heavier)
  have run₇ := run₆.step trivial (.answers rfl rfl h.sent)
  exact run₇.step trivial (.handle rfl rfl (.returned (h.delivery _)))

end OneShort

namespace Devnet

/-- A block at its own time. -/
def timed (height : Nat) (nonce prevNonce version : UInt64) (time : Nat) : Block :=
  { block height nonce prevNonce (coinbase height version 0 []) [] with
    timestamp := UInt64.ofNat time }

/-- Blocks on the first of the main line: three far apart, and two so close that
the second is worth more than the other two behind the first. -/
def slowLine : List Event :=
  [.newBlock (timed 2 302 1 3 1000), .newBlock (timed 3 303 302 3 2000),
    .newBlock (timed 4 304 303 3 3000)]
def fastLine : List Event := [.newBlock (timed 2 402 1 4 61), .newBlock (timed 3 403 402 4 62)]

/-- A line from genesis that overtakes, with a transaction nobody has. -/
def brokenLine : List Event :=
  [.newBlock unknownTxBlock, .newBlock (timed 2 502 101 5 61), .newBlock (timed 3 503 502 5 62),
    .newBlock (timed 4 504 503 5 63)]

/-- A node that knows the slow line and has lost the block below it. -/
def astray : Node := node ∅ (oneBlock ++ fastLine ++ slowLine ++ brokenLine)

/-- A peer on its way from the slow line to the fast one. -/
def onTheWay : Node := node ∅ oneBlock
def onSlowLine : Node := node ∅ (oneBlock ++ slowLine)
def onFastLine : Node := node ∅ (oneBlock ++ slowLine ++ fastLine)

/-- The id of the block with that nonce. -/
def idOf (nonce : Nat) : Hash := BitVec.ofNat 256 (nonce + 1)

/-- What the peer lists on the slow line, and what it sends on the fast one. -/
def slowEntry : ChainEntry := ⟨0, 5, [idOf 0, idOf 1, idOf 302, idOf 303, idOf 304]⟩
def lostBlock : ObjectsEntry := ⟨[], [⟨blockToBlob (mainBlock 1), []⟩], [], 4⟩

end Devnet

/-- A node with its genesis block meets a peer with one more. -/
theorem synchronisation_under_way_devnet :
    ∃ s : Session Node, SyncRun (nodeCore Devnet.env) Devnet.env (Devnet.idOf 0)
        (NodeOf Devnet.env (Devnet.idOf 0)) KeepsAnnounced s ∧
      s.here.dropped = false ∧ s.here.context.mState = .synchronizing ∧
      (s.here.outbox ≠ [] ∨ s.inbox ≠ [] ∨ 0 < s.here.context.mCallbackRequestCount) := by
  have eval :
      (Devnet.run ∅ []).isSome = true ∧ (Devnet.run ∅ Devnet.oneBlock).isSome = true ∧
      (blockIds Devnet.env (Devnet.node ∅ []).chain.mBlocks)[0]? = some (Devnet.idOf 0) ∧
      (blockIds Devnet.env Devnet.onTheWay.chain.mBlocks)[0]? = some (Devnet.idOf 0) ∧
      (Devnet.node ∅ []).chain.haveBlock (Devnet.onTheWay.chain.getTopBlockId Devnet.env) = false ∧
      (Devnet.node ∅ []).chain.getCurrentBlockchainHeight ≤
        Devnet.onTheWay.chain.getCurrentBlockchainHeight ∧
      Devnet.onTheWay.chain.mCheckpoints.getTopCheckpointHeight = 0 := by
    decide +kernel
  obtain ⟨hrun, hrun', hn, hp, hbehind, hheight, hpoints⟩ := eval
  have reach : Reachable Devnet.env Devnet.onTheWay := Devnet.reachable_node ∅ _ hrun'
  have reach' : Reachable Devnet.env (Devnet.node ∅ []) := Devnet.reachable_node ∅ _ hrun
  clear hrun hrun'
  generalize Devnet.onTheWay = p at *
  generalize Devnet.node ∅ [] = n at *
  have run : SyncRun (nodeCore Devnet.env) Devnet.env (Devnet.idOf 0)
      (NodeOf Devnet.env (Devnet.idOf 0)) KeepsAnnounced _ :=
    asked_run (fun _ _ _ => trivial) (fun _ => trivial) (reach'.nodeOf hn) (reach.honestPeer hp)
      hbehind hheight hpoints
  exact ⟨_, run, rfl, rfl, (synchronisation_under_way run).2 rfl rfl⟩

/-- The peer lists five blocks, of which the node misses the second, and has
gone over to four heavier ones when it sends it. -/
theorem synchronisation_stops :
    ∃ s : Session Node, SyncRun (nodeCore Devnet.env) Devnet.env (Devnet.idOf 0)
        (NodeOf Devnet.env (Devnet.idOf 0)) (fun _ _ => True) s ∧
      s.here.dropped = false ∧ .finalConditionFailed ∈ s.here.errors ∧
      s.here.context.mState = .synchronizing ∧ s.here.outbox = [] ∧ s.inbox = [] ∧
      s.here.context.mCallbackRequestCount = 0 := by
  have runs :
      (Devnet.run ∅ (Devnet.oneBlock ++ Devnet.fastLine ++ Devnet.slowLine ++
        Devnet.brokenLine)).isSome = true ∧
      (Devnet.run ∅ Devnet.oneBlock).isSome = true ∧
      (Devnet.run ∅ (Devnet.oneBlock ++ Devnet.slowLine)).isSome = true ∧
      (Devnet.run ∅ (Devnet.oneBlock ++ Devnet.slowLine ++ Devnet.fastLine)).isSome = true := by
    decide +kernel
  have origin :
      (blockIds Devnet.env Devnet.astray.chain.mBlocks)[0]? = some (Devnet.idOf 0) ∧
      (blockIds Devnet.env Devnet.onTheWay.chain.mBlocks)[0]? = some (Devnet.idOf 0) ∧
      (blockIds Devnet.env Devnet.onSlowLine.chain.mBlocks)[0]? = some (Devnet.idOf 0) ∧
      (blockIds Devnet.env Devnet.onFastLine.chain.mBlocks)[0]? = some (Devnet.idOf 0) := by
    decide +kernel
  have weights :
      cumulativeDifficulty Devnet.onTheWay.chain.mBlocks <
        cumulativeDifficulty Devnet.onSlowLine.chain.mBlocks ∧
      cumulativeDifficulty Devnet.onSlowLine.chain.mBlocks <
        cumulativeDifficulty Devnet.onFastLine.chain.mBlocks := by
    decide +kernel
  have knows :
      Devnet.astray.chain.haveBlock (Devnet.onTheWay.chain.getTopBlockId Devnet.env) = false ∧
      Devnet.astray.chain.getCurrentBlockchainHeight ≤
        Devnet.onTheWay.chain.getCurrentBlockchainHeight ∧
      Devnet.onTheWay.chain.mCheckpoints.getTopCheckpointHeight = 0 ∧
      Devnet.astray.chain.getShortChainHistory Devnet.env = [Devnet.idOf 0] ∧
      Devnet.astray.chain.haveBlock (Devnet.idOf 0) = true ∧
      (Devnet.slowEntry.mBlockIds.filter fun id => !Devnet.astray.chain.haveBlock id) =
        [getBlockHash Devnet.env (Devnet.mainBlock 1)] := by
    decide +kernel
  have answers :
      Devnet.onSlowLine.answer Devnet.env (.chain [Devnet.idOf 0]) =
        .ok (some (.chainEntry Devnet.slowEntry)) ∧
      Devnet.onFastLine.answer Devnet.env
        (.getObjects [] [getBlockHash Devnet.env (Devnet.mainBlock 1)]) =
        .ok (some (.objects Devnet.lostBlock)) := by
    decide +kernel
  have takes :
      parseAndValidateBlockFromBlob (blockToBlob (Devnet.mainBlock 1)) = some (Devnet.mainBlock 1) ∧
      returned (handleIncomingBlock Devnet.env Devnet.now 3 (blockToBlob (Devnet.mainBlock 1))
        Devnet.astray) = some BlockVerdict.added.2 := by
    decide +kernel
  have reach : Reachable Devnet.env Devnet.astray ∧ Reachable Devnet.env Devnet.onTheWay ∧
      Reachable Devnet.env Devnet.onSlowLine ∧ Reachable Devnet.env Devnet.onFastLine :=
    ⟨Devnet.reachable_node ∅ _ runs.1, Devnet.reachable_node ∅ _ runs.2.1,
      Devnet.reachable_node ∅ _ runs.2.2.1, Devnet.reachable_node ∅ _ runs.2.2.2⟩
  -- the nodes are evaluated above and are only names below
  clear runs
  generalize Devnet.astray = n at *
  generalize Devnet.onTheWay = p₀ at *
  generalize Devnet.onSlowLine = p₁ at *
  generalize Devnet.onFastLine = p₂ at *
  obtain ⟨hn, h₀, h₁, h₂⟩ := reach
  obtain ⟨on, o₀, o₁, o₂⟩ := origin
  obtain ⟨hbehind, hheight, hpoints, hhistory, hgenesis, hmissing⟩ := knows
  have short : OneShort Devnet.env (Devnet.idOf 0) (Devnet.now, 3) n
      (stateOf (handleIncomingBlock Devnet.env Devnet.now 3 (blockToBlob (Devnet.mainBlock 1)) n))
      p₀ p₁ p₂ (Devnet.mainBlock 1) Devnet.slowEntry Devnet.lostBlock :=
    { node := hn.nodeOf on
      first := h₀.honestPeer o₀
      second := h₁.honestPeer o₁
      third := h₂.honestPeer o₂
      longer := weights.1
      heavier := weights.2
      behind := hbehind
      notShorter := hheight
      noCheckpoints := hpoints
      listed := hhistory ▸ answers.1
      front := ⟨_, _, rfl, hgenesis⟩
      within := by decide
      missing := hmissing
      sent := answers.2
      blocks := rfl
      reads := takes.1
      plain := rfl
      added := eq_returned takes.2
      gap := rfl
      positive := by decide }
  exact ⟨_, short.stuck, rfl, List.mem_singleton.2 rfl, rfl, rfl, rfl, rfl⟩


end DarknetSpace
