import DarknetSpace.Sync.Learning

/-!
# Catching up makes progress

Between two requests for the chain the node learns a block, unless one of two things
happens. A stretch of ids can be all known and still not reach the top of the peer:
`have_block` counts alternative and invalid blocks, the next request is built from the
main chain only, and one answer holds ten thousand ids, so the same request goes out
again at once. Or the core turns the last block of a delivery away without setting a
flag.

`chain_requests_progress` is the theorem for the node itself, in every run whose events
are neither of the two. The rest is about the first of them: a node on a chain of ten
thousand blocks that keeps the next ten thousand of its peer beside the main chain, and
asks for the same stretch for ever (`chain_request_repeats`).
-/

namespace DarknetSpace

open StateExn

/-! ## The node -/

/-- An incoming transaction leaves the chain of any node alone. -/
theorem handleIncomingTx_chain {env : Env} (s : Storage) (now : Nat) (txBlob : Blob) (kept : Bool) :
    Keeps (fun n : Node => n.chain = s) (handleIncomingTx env now txBlob kept) := by
  refine .bind Keeps.get fun n => .ite (Keeps.pure _) ?_
  cases env.parseTx txBlob with
  | none => exact Keeps.pure _
  | some tx =>
    refine .ite (Keeps.pure _) (.bind (Keeps.reads _) fun r => .ite (Keeps.pure _) ?_)
    intro n hn
    unfold addNewTx
    simp only
    split
    · exact hn
    · split
      · exact hn
      · exact hn

theorem nodeCore_txsTeachNothing (env : Env) : TxsTeachNothing (nodeCore env) := by
  intro t txBlob kept n id
  have hkeeps : Keeps (fun m : Node => m.chain = n.chain)
      ((nodeCore env).handleIncomingTx t txBlob kept) :=
    .bind (handleIncomingTx_chain n.chain t.1 txBlob kept) fun v => Keeps.pure _
  exact congrArg (fun s : Storage => s.haveBlock id) (hkeeps n rfl)

/-- On a connection with a peer whose chain stays as it is and with no other
source of blocks: as long as every stretch of ids lists an unknown one or reaches
the top, and no delivery ends in a block that is turned away without a flag, the
same request for the chain goes out twice only with a block learnt in between,
and requests that teach nothing come to an end. -/
theorem chain_requests_progress {env : Env} {g : Hash} {p : Node} {states : Nat → Session Node}
    {events : Nat → Option (SyncEvent Node (Nat × Nat))}
    (h : Exchange (nodeCore env) env g (NodeOf env g) p states events)
    (fruitful : ∀ k, ∀ e ∈ events k, Fruitful (nodeCore env) env e (states k)) :
    (∀ i j ids, i < j → Asks ids (states i) (states (i + 1)) →
      Asks ids (states j) (states (j + 1)) →
      ∃ k, i < k ∧ k ≤ j ∧ Learns (nodeCore env) (states k) (states (k + 1))) ∧
    (∀ m, (∀ k, m ≤ k → ¬ Learns (nodeCore env) (states k) (states (k + 1))) →
      ∃ m', ∀ k, m' ≤ k → ∀ ids, ¬ Asks ids (states k) (states (k + 1))) := by
  have htx := nodeCore_txsTeachNothing env
  constructor
  · intro i j ids hij first second
    exact h.learns_between htx fruitful hij first second
  · intro m hnothing
    by_cases hask : ∃ i ids, m ≤ i ∧ Asks ids (states i) (states (i + 1))
    · obtain ⟨i, ids, hi, hasks⟩ := hask
      refine ⟨i + 1, ?_⟩
      intro j hj ids' hasks'
      obtain ⟨k, hik, -, hlearns⟩ := h.learns_between htx fruitful hj hasks hasks'
      exact hnothing k (by omega) hlearns
    · refine ⟨m, ?_⟩
      intro k hk ids hasks
      exact hask ⟨k, ids, hk, hasks⟩

/-! ## Ten thousand known ids -/

/-- The first steps with a peer that answers `arg`: the handshake, the request,
the answer, and what the node makes of it. -/
def firstSteps (env : Env) (n p : Node) (arg : ChainEntry) : Nat → Session Node
  | 0 => ⟨⟨n, .fresh, [], [], false, 0⟩, p, []⟩
  | 1 => ⟨catchingUp n ∅ p.chain.getCurrentBlockchainHeight 0 1 [] [], p, []⟩
  | 2 => ⟨catchingUp n ∅ p.chain.getCurrentBlockchainHeight 0 0
      [.chain (n.chain.getShortChainHistory env)] [], p, []⟩
  | 3 => ⟨catchingUp n ∅ p.chain.getCurrentBlockchainHeight 0 0 [] [], p, [.chainEntry arg]⟩
  | _ => ⟨handleResponseChainEntry (nodeCore env) arg
      (catchingUp n ∅ p.chain.getCurrentBlockchainHeight 0 0 [] []), p, []⟩

/-- Sync data, callback, answer, and what is done with it. -/
def firstEvents (env : Env) (p : Node) : Nat → Option (SyncEvent Node (Nat × Nat))
  | 0 => some (.syncData (p.getPayloadSyncData env) true)
  | 1 => some .callback
  | 2 => some .answer
  | 3 => some (.handle (0, 0))
  | _ => none

section

variable {env : Env} {g : Hash}

/-- These steps are a run of the exchange. -/
theorem firstSteps_exchange {n p : Node} {arg : ChainEntry} (hp : SteadyPeer env p)
    (behind : n.chain.haveBlock (p.chain.getTopBlockId env) = false)
    (notShorter : n.chain.getCurrentBlockchainHeight ≤ p.chain.getCurrentBlockchainHeight)
    (noCheckpoints : p.chain.mCheckpoints.getTopCheckpointHeight = 0)
    (answered : p.answer env (.chain (n.chain.getShortChainHistory env)) =
      .ok (some (.chainEntry arg))) :
    Exchange (nodeCore env) env g (NodeOf env g) p (firstSteps env n p arg) (firstEvents env p) := by
  refine ⟨hp, rfl, rfl, rfl, rfl, ?_⟩
  intro k
  match k with
  | 0 =>
    have hstep : SyncStep (nodeCore env) env g (NodeOf env g)
        (.syncData (p.getPayloadSyncData env) true) (firstSteps env n p arg 0) _ := .syncData rfl
    rw [show (firstSteps env n p arg 0).here = ⟨n, .fresh, [], [], false, 0⟩ from rfl,
      handshake behind notShorter noCheckpoints] at hstep
    exact .event hstep rfl
  | 1 => exact .event (.callback rfl Nat.one_pos) trivial
  | 2 => exact .event (.answers rfl rfl answered) trivial
  | 3 => exact .event (.handle rfl rfl (.returned (a := ()) rfl)) trivial
  | k + 4 => exact .rest

theorem firstSteps_core (n p : Node) (arg : ChainEntry) (k : Nat) :
    (firstSteps env n p arg k).here.core = n := by
  match k with
  | 0 | 1 | 2 | 3 => rfl
  | k + 4 => exact handleResponseChainEntry_core arg _

/-- All ids of the answer are known and it does not reach the top: the same
request once more, with nothing learnt. -/
theorem firstSteps_repeat (env : Env) (n p : Node) {arg : ChainEntry} (some' : arg.mBlockIds ≠ [])
    (known : ∀ id ∈ arg.mBlockIds, n.chain.haveBlock id = true)
    (short : arg.startHeight + arg.mBlockIds.length < arg.totalHeight) :
    Asks (n.chain.getShortChainHistory env) (firstSteps env n p arg 1) (firstSteps env n p arg 2) ∧
    Asks (n.chain.getShortChainHistory env) (firstSteps env n p arg 3) (firstSteps env n p arg 4) ∧
    ∀ k, ¬ Learns (nodeCore env) (firstSteps env n p arg k) (firstSteps env n p arg (k + 1)) := by
  refine ⟨rfl, ?_, ?_⟩
  · show (handleResponseChainEntry (nodeCore env) arg _).outbox = [] ++ [_]
    obtain ⟨front, rest, hids⟩ := List.exists_cons_of_ne_nil some'
    have hfront : n.chain.haveBlock front = true := known front (hids ▸ List.mem_cons_self)
    have hpos := List.length_pos_of_ne_nil some'
    rw [handleResponseChainEntry_eq hids hfront (Nat.le_of_lt short)]
    have hneed : (noted (nodeCore env) arg (catchingUp n ∅
        p.chain.getCurrentBlockchainHeight 0 0 [] [])).context.mNeededObjects = [] := by
      show [] ++ arg.mBlockIds.filter _ = []
      rw [List.nil_append, List.filter_eq_nil_iff]
      intro id hid
      have hknown : (nodeCore env).haveBlock n id = true := known id hid
      simp [catchingUp, hknown]
    have hmore : arg.startHeight + arg.mBlockIds.length - 1 < heightBelow arg.totalHeight := by
      rw [heightBelow, if_neg (by omega)]
      omega
    unfold requestMissingObjects
    rw [if_neg (not_not.2 hneed)]
    show (if arg.startHeight + arg.mBlockIds.length - 1 < heightBelow arg.totalHeight
      then _ else _ : Bool × Endpoint Node).2.outbox = _
    rw [if_pos hmore]
    rfl
  · rintro k ⟨id, hno, hyes⟩
    rw [firstSteps_core] at hno hyes
    rw [hno] at hyes
    cases hyes

end

namespace Devnet

/-- The main line, block by block, as entries of a chain. -/
def lineBlock : (height : Nat) → Block
  | 0 => genesis
  | height + 1 => mainBlock (height + 1)

/-- The entry of the block at a height. -/
def lineEntry (height : Nat) : BlockEntry :=
  { BlockEntry.ofBlock (lineBlock height) with height, cumulativeDifficulty := height + 1 }

/-- The first blocks. -/
def line (count : Nat) : List BlockEntry := (List.range count).map lineEntry

/-- A peer on the main line of that many blocks. -/
def onLine (count : Nat) : Node :=
  { Node.initial ∅ with chain := { Storage.empty ∅ with
    mBlocks := line count
    mBlocksIndex := blockIds env (line count) } }

/-- A line of five blocks, so close that it is worth more than ten thousand of
the main line. -/
def denseLine : List Event :=
  [.newBlock (timed 1 20001 0 6 60), .newBlock (timed 2 20002 20001 6 61),
    .newBlock (timed 3 20003 20002 6 62), .newBlock (timed 4 20004 20003 6 63),
    .newBlock (timed 5 20005 20004 6 64)]

/-- The main line up to that height, as alternative blocks. -/
def storedLine (count : Nat) : Map Hash BlockEntry :=
  .ofList ((List.range count).map fun k => (idOf (k + 1), lineEntry (k + 1)))

/-- A node that has kept so many blocks of the main line. -/
def storing (n : Node) (count : Nat) : Node :=
  { n with chain := { n.chain with mAlternativeChains := storedLine count } }

/-- The id of a block tells its height. -/
theorem lineBlock_id {height : Nat} (h : height < 2 ^ 64) :
    getBlockHash env (lineBlock height) = idOf height := by
  cases height with
  | zero => rfl
  | succ k =>
    show BitVec.ofNat 256 ((UInt64.ofNat (k + 1)).toNat + 1) = _
    rw [UInt64.toNat_ofNat', Nat.mod_eq_of_lt h]
    rfl

theorem idOf_inj {a b : Nat} (ha : a < 2 ^ 64) (hb : b < 2 ^ 64) (h : idOf a = idOf b) : a = b := by
  have := congrArg BitVec.toNat h
  unfold idOf at this
  rw [BitVec.toNat_ofNat, BitVec.toNat_ofNat] at this
  omega

theorem blockIds_line {count : Nat} (h : count ≤ 2 ^ 64) :
    blockIds env (line count) = (List.range count).map idOf := by
  unfold blockIds line
  rw [List.map_map]
  refine List.map_congr_left fun height hh => ?_
  exact lineBlock_id (Nat.lt_of_lt_of_le (List.mem_range.1 hh) h)

/-- What is found among them. -/
theorem line_get {count i : Nat} {e : BlockEntry} (h : (line count)[i]? = some e) :
    i < count ∧ e = lineEntry i := by
  unfold line at h
  rw [List.getElem?_map, Option.map_eq_some_iff] at h
  obtain ⟨k, hk, rfl⟩ := h
  obtain ⟨hlt, hki⟩ := List.getElem?_eq_some_iff.1 hk
  rw [List.getElem_range] at hki
  rw [List.length_range] at hlt
  exact ⟨hlt, by rw [hki]⟩

/-- The index of such a chain is right. -/
theorem line_indexed {count : Nat} (hpos : 0 < count) (h : count ≤ 2 ^ 64) :
    IndexedChain env (onLine count).chain := by
  refine ⟨⟨⟨?_, ?_⟩, ?_⟩, rfl, ?_⟩
  · show (blockIds env (line count)).Nodup
    rw [blockIds_line h, List.nodup_map_iff_inj_on List.nodup_range]
    intro a ha b hb hab
    have ha := List.mem_range.1 ha
    have hb := List.mem_range.1 hb
    exact idOf_inj (by omega) (by omega) hab
  · intro k e he
    rw [(line_get he).2]
    rfl
  · intro i e₁ e₂ h₁ h₂
    obtain ⟨hlt₁, rfl⟩ := line_get h₁
    obtain ⟨hlt₂, rfl⟩ := line_get h₂
    show (mainBlock (i + 1)).prevId = getBlockHash env (lineBlock i)
    rw [lineBlock_id (by omega)]
    show BitVec.ofNat 256 ((UInt64.ofNat i).toNat + 1) = _
    rw [UInt64.toNat_ofNat', Nat.mod_eq_of_lt (by omega)]
    rfl
  · show line count ≠ []
    unfold line
    rw [Ne, List.map_eq_nil_iff, List.range_eq_nil]
    omega

/-- The blocks can be read back. -/
theorem lineBlock_readable (height : Nat) :
    parseAndValidateBlockFromBlob (blockToBlob (lineBlock height)) = some (lineBlock height) := by
  have hsized : ∀ h, (coinbase h 1 0 []).Sized := by
    intro h
    refine ⟨⟨?_, ?_, ?_, ?_, ?_⟩, ?_, ?_⟩
    all_goals simp [coinbase, FitsVector, Txin.Sized, TxoutTarget.Sized]
  have hblock : (Archive.block.write (lineBlock height)).ok = true := by
    cases height with
    | zero => exact Archive.block_ok (Nat.zero_le _) (Nat.le_refl 1) ⟨hsized 0, Nat.two_pow_pos 64⟩
    | succ k =>
      exact Archive.block_ok (Nat.zero_le _) (Nat.le_refl 1) ⟨hsized (k + 1), Nat.two_pow_pos 64⟩
  exact Archive.block.decode_encode hblock

/-- Such a node can be the peer. -/
theorem line_steady {count : Nat} (hpos : 0 < count) (h : count ≤ 2 ^ 64) :
    SteadyPeer env (onLine count) := by
  refine ⟨line_indexed hpos h, ?_⟩
  intro e he
  obtain ⟨i, hi⟩ := List.mem_iff_getElem?.1 he
  rw [(line_get hi).2]
  exact lineBlock_readable i

theorem onLine_length (count : Nat) : (onLine count).chain.mBlocks.length = count := by
  show (line count).length = count
  rw [line, List.length_map, List.length_range]

/-- Its top is the last of them. -/
theorem onLine_top {count : Nat} (hpos : 0 < count) (h : count ≤ 2 ^ 64) :
    (onLine count).chain.getTopBlockId env = idOf (count - 1) := by
  have hlast : (onLine count).chain.mBlocks.getLast? = some (lineEntry (count - 1)) := by
    show (line count).getLast? = _
    rw [List.getLast?_eq_getElem?, line, List.length_map, List.length_range, List.getElem?_map,
      List.getElem?_range (by omega)]
    rfl
  unfold Storage.getTopBlockId
  rw [hlast]
  exact lineBlock_id (by omega)

/-- Ids above the top are unknown to it, -/
theorem onLine_unknown {count height : Nat} (h : count ≤ 2 ^ 64) (hh : height < 2 ^ 64)
    (hge : count ≤ height) : indexHeight (onLine count).chain.mBlocksIndex (idOf height) = none := by
  have hids : (onLine count).chain.mBlocksIndex = (List.range count).map idOf := blockIds_line h
  rw [hids, indexHeight, List.idxOf?_eq_none_iff]
  intro hmem
  obtain ⟨k, hk, hid⟩ := List.mem_map.1 hmem
  have hk := List.mem_range.1 hk
  have := idOf_inj (by omega) hh hid
  omega

theorem onLine_genesis {count : Nat} (h : count + 1 ≤ 2 ^ 64) :
    indexHeight (onLine (count + 1)).chain.mBlocksIndex (idOf 0) = some 0 := by
  have hids : (onLine (count + 1)).chain.mBlocksIndex = (List.range (count + 1)).map idOf :=
    blockIds_line h
  rw [hids, indexHeight, List.range_succ_eq_map, List.map_cons, List.idxOf?_cons,
    if_pos (beq_self_eq_true _)]

/-- What a node off the main line is told of it. -/
theorem onLine_answer (count : Nat) {ids : List Hash}
    (hlast : ids.getLast? = some (idOf 0))
    (hfound : ids.findSome? (indexHeight (onLine (count + 1)).chain.mBlocksIndex) = some 0) :
    (onLine (count + 1)).answer env (.chain ids) =
      .ok (some (.chainEntry ((onLine (count + 1)).chain.stretchFrom env 0))) := by
  have hat : (onLine (count + 1)).chain.blockAt 0 = .ok (lineEntry 0) := by
    unfold Storage.blockAt
    have hget : (onLine (count + 1)).chain.mBlocks[0]? = some (lineEntry 0) := by
      show (line (count + 1))[0]? = _
      rw [line, List.getElem?_map, List.getElem?_range (Nat.succ_pos count)]
      rfl
    rw [hget]
  have hsup : (onLine (count + 1)).chain.findBlockchainSupplement env ids = .ok (some 0) := by
    unfold Storage.findBlockchainSupplement
    rw [hlast]
    have hid : getBlockHash env (lineEntry 0).bl = idOf 0 := lineBlock_id (Nat.two_pow_pos 64)
    simp only [hat, hid, ne_eq, not_true_eq_false, if_false, hfound, bind, Except.bind, pure,
      Except.pure]
  simp only [Node.answer, Storage.chainEntry, hsup]
  rfl

/-- What is kept beside the main chain. -/
theorem storedLine_contains {count height : Nat} (h : count < 2 ^ 64) (hh : height < 2 ^ 64) :
    (storedLine count).contains (idOf height) = decide (0 < height ∧ height ≤ count) := by
  unfold storedLine
  rw [Std.ExtTreeMap.contains_ofList, List.map_map, Bool.eq_iff_iff, List.contains_iff_mem,
    decide_eq_true_iff, List.mem_map]
  constructor
  · rintro ⟨k, hk, hid⟩
    have hk := List.mem_range.1 hk
    have := idOf_inj (by omega) hh hid
    omega
  · rintro ⟨hpos, hle⟩
    refine ⟨height - 1, List.mem_range.2 (by omega), ?_⟩
    show idOf (height - 1 + 1) = idOf height
    rw [Nat.sub_add_cancel hpos]

theorem onLine_stretch (count : Nat) (h : count ≤ 2 ^ 64) :
    ((onLine count).chain.stretchFrom env 0).mBlockIds =
      (List.range (min blocksIdsSynchronizingDefaultCount count)).map idOf := by
  show ((blockIds env (line count)).drop 0).take _ = _
  rw [blockIds_line h, List.drop_zero, ← List.map_take, List.take_range]

/-- A node off the main line that knows as much of it as one answer lists asks
the same again. -/
theorem off_line_repeats (n : Node) (count : Nat) (hcount : count + 1 ≤ 2 ^ 64)
    (long : blocksIdsSynchronizingDefaultCount ≤ count)
    (known : ∀ height, height < blocksIdsSynchronizingDefaultCount →
      n.chain.haveBlock (idOf height) = true)
    (behind : n.chain.haveBlock (idOf count) = false)
    (lower : n.chain.getCurrentBlockchainHeight ≤ count + 1)
    (hlast : (n.chain.getShortChainHistory env).getLast? = some (idOf 0))
    (hfound : (n.chain.getShortChainHistory env).findSome?
      (indexHeight (onLine (count + 1)).chain.mBlocksIndex) = some 0) :
    ∃ (p : Node) (states : Nat → Session Node) (events : Nat → Option (SyncEvent Node (Nat × Nat)))
      (i j : Nat) (ids : List Hash),
      Exchange (nodeCore env) env (idOf 0) (NodeOf env (idOf 0)) p states events ∧
      i < j ∧ Asks ids (states i) (states (i + 1)) ∧ Asks ids (states j) (states (j + 1)) ∧
      ∀ k, ¬ Learns (nodeCore env) (states k) (states (k + 1)) := by
  have hids := onLine_stretch (count + 1) hcount
  rw [Nat.min_eq_left (by omega)] at hids
  have hlen : ((onLine (count + 1)).chain.stretchFrom env 0).mBlockIds.length =
      blocksIdsSynchronizingDefaultCount := by
    rw [hids, List.length_map, List.length_range]
  have htotal : ((onLine (count + 1)).chain.stretchFrom env 0).totalHeight = count + 1 :=
    onLine_length (count + 1)
  have hsome : ((onLine (count + 1)).chain.stretchFrom env 0).mBlockIds ≠ [] := by
    rw [← List.length_pos_iff, hlen]
    exact Nat.succ_pos _
  have hknown : ∀ id ∈ ((onLine (count + 1)).chain.stretchFrom env 0).mBlockIds,
      n.chain.haveBlock id = true := by
    rw [hids]
    intro id hid
    obtain ⟨height, hheight, rfl⟩ := List.mem_map.1 hid
    exact known height (List.mem_range.1 hheight)
  have hshort : ((onLine (count + 1)).chain.stretchFrom env 0).startHeight +
      ((onLine (count + 1)).chain.stretchFrom env 0).mBlockIds.length <
      ((onLine (count + 1)).chain.stretchFrom env 0).totalHeight := by
    rw [hlen, htotal]
    show 0 + _ < _
    omega
  have hexchange := firstSteps_exchange (g := idOf 0) (n := n) (p := onLine (count + 1))
    (line_steady (Nat.succ_pos count) hcount)
    (by rw [onLine_top (Nat.succ_pos count) hcount]; exact behind)
    (Nat.le_trans lower (Nat.le_of_eq (onLine_length (count + 1)).symm)) rfl
    (onLine_answer count hlast hfound)
  have hrepeat := firstSteps_repeat env n (onLine (count + 1)) hsome hknown hshort
  exact ⟨_, _, _, 1, 3, _, hexchange, by decide, hrepeat.1, hrepeat.2.1, hrepeat.2.2⟩

section

variable (n : Node) (count : Nat)

theorem storing_history : (storing n count).chain.getShortChainHistory env =
    n.chain.getShortChainHistory env := rfl

theorem storing_height : (storing n count).chain.getCurrentBlockchainHeight =
    n.chain.mBlocks.length := rfl

theorem storing_haveBlock (id : Hash) : (storing n count).chain.haveBlock id =
    (decide (id ∈ n.chain.mBlocksIndex) || (storedLine count).contains id ||
      n.chain.mInvalidBlocks.contains id) := rfl

end

end Devnet

/-- A node with the genesis block alone and a peer with one block more: it asks for
the chain once, and the answer names the block it lacks. The run ends there, before
the block is delivered. -/
theorem chain_requests_progress_devnet :
    ∃ (states : Nat → Session Node) (events : Nat → Option (SyncEvent Node (Nat × Nat))),
      Exchange (nodeCore Devnet.env) Devnet.env (Devnet.idOf 0)
        (NodeOf Devnet.env (Devnet.idOf 0)) (Devnet.onLine 2) states events ∧
      Asks [Devnet.idOf 0] (states 1) (states 2) ∧
      ∀ j, 1 < j → Asks [Devnet.idOf 0] (states j) (states (j + 1)) →
        ∃ k, 1 < k ∧ k ≤ j ∧ Learns (nodeCore Devnet.env) (states k) (states (k + 1)) := by
  have eval :
      (Devnet.node ∅ []).chain.getShortChainHistory Devnet.env = [Devnet.idOf 0] ∧
      (Devnet.node ∅ []).chain.haveBlock (Devnet.idOf 1) = false ∧
      (Devnet.node ∅ []).chain.getCurrentBlockchainHeight = 1 := by
    decide +kernel
  generalize Devnet.node ∅ [] = n at eval
  obtain ⟨hhistory, hbehind, hheight⟩ := eval
  have htop : (Devnet.onLine 2).chain.getTopBlockId Devnet.env = Devnet.idOf 1 :=
    Devnet.onLine_top Nat.two_pos (by decide)
  have hfound : [Devnet.idOf 0].findSome? (indexHeight (Devnet.onLine (1 + 1)).chain.mBlocksIndex) =
      some 0 := by
    rw [List.findSome?_cons, Devnet.onLine_genesis (by decide)]
  have hasked : Asks [Devnet.idOf 0]
      (firstSteps Devnet.env n (Devnet.onLine 2) ((Devnet.onLine 2).chain.stretchFrom Devnet.env 0) 1)
      (firstSteps Devnet.env n (Devnet.onLine 2) ((Devnet.onLine 2).chain.stretchFrom Devnet.env 0)
        2) := by
    rw [← hhistory]
    rfl
  have hexchange : Exchange (nodeCore Devnet.env) Devnet.env (Devnet.idOf 0)
      (NodeOf Devnet.env (Devnet.idOf 0)) (Devnet.onLine 2)
      (firstSteps Devnet.env n (Devnet.onLine 2) ((Devnet.onLine 2).chain.stretchFrom Devnet.env 0))
      (firstEvents Devnet.env (Devnet.onLine 2)) := by
    refine firstSteps_exchange (Devnet.line_steady Nat.two_pos (by decide)) ?_ ?_ rfl ?_
    · rw [htop]
      exact hbehind
    · rw [hheight]
      exact Nat.le_of_lt (Nat.lt_of_lt_of_eq Nat.one_lt_two (Devnet.onLine_length 2).symm)
    · rw [hhistory]
      exact Devnet.onLine_answer 1 rfl hfound
  have hids := Devnet.onLine_stretch 2 (by decide)
  refine ⟨_, _, hexchange, hasked, fun j hj hasks => ?_⟩
  refine (chain_requests_progress hexchange ?_).1 1 j _ hj hasked hasks
  intro k e he
  match k with
  | 0 | 1 | 2 =>
    cases he
    trivial
  | 3 =>
    cases he
    refine .inl ⟨Devnet.idOf 1, ?_, hbehind⟩
    rw [hids]
    exact List.mem_map.2 ⟨1, List.mem_range.2 (by decide), rfl⟩
  | k + 4 => cases he

/-- A node on a heavier line of five blocks that has kept the first ten thousand
blocks of the peer's as alternative blocks, and a peer with one more. -/
theorem chain_request_repeats :
    ∃ (p : Node) (states : Nat → Session Node) (events : Nat → Option (SyncEvent Node (Nat × Nat)))
      (i j : Nat) (ids : List Hash),
      Exchange (nodeCore Devnet.env) Devnet.env (Devnet.idOf 0)
        (NodeOf Devnet.env (Devnet.idOf 0)) p states events ∧
      i < j ∧ Asks ids (states i) (states (i + 1)) ∧ Asks ids (states j) (states (j + 1)) ∧
      ∀ k, ¬ Learns (nodeCore Devnet.env) (states k) (states (k + 1)) := by
  have eval :
      (Devnet.node ∅ Devnet.denseLine).chain.mBlocks.length = 6 ∧
      (Devnet.node ∅ Devnet.denseLine).chain.getShortChainHistory Devnet.env =
        [Devnet.idOf 20005, Devnet.idOf 20004, Devnet.idOf 20003, Devnet.idOf 20002,
          Devnet.idOf 20001, Devnet.idOf 0] ∧
      Devnet.idOf 0 ∈ (Devnet.node ∅ Devnet.denseLine).chain.mBlocksIndex ∧
      Devnet.idOf 10001 ∉ (Devnet.node ∅ Devnet.denseLine).chain.mBlocksIndex ∧
      (Devnet.node ∅ Devnet.denseLine).chain.mInvalidBlocks.contains (Devnet.idOf 10001) = false := by
    decide +kernel
  generalize Devnet.node ∅ Devnet.denseLine = n at eval
  obtain ⟨hlen, hhistory, hgenesis, hnew, hinvalid⟩ := eval
  have hmax : blocksIdsSynchronizingDefaultCount = 10000 := rfl
  obtain ⟨count, hcount⟩ : ∃ count, count = 10001 := ⟨_, rfl⟩
  obtain ⟨kept, hkept⟩ : ∃ kept, kept = 10000 := ⟨_, rfl⟩
  rw [← hcount] at hnew hinvalid
  refine Devnet.off_line_repeats (Devnet.storing n kept) count (by omega)
    (by omega) ?_ ?_ ?_ ?_ ?_
  · intro height hheight
    rw [Devnet.storing_haveBlock]
    by_cases hzero : height = 0
    · subst hzero
      rw [decide_eq_true hgenesis, Bool.true_or, Bool.true_or]
    · rw [Devnet.storedLine_contains (by omega) (by omega), decide_eq_true (p := 0 < _ ∧ _) (by omega),
        Bool.or_true, Bool.true_or]
  · rw [Devnet.storing_haveBlock, decide_eq_false hnew, hinvalid,
      Devnet.storedLine_contains (by omega) (by omega), decide_eq_false (p := 0 < _ ∧ _) (by omega)]
    rfl
  · rw [Devnet.storing_height]
    omega
  · rw [Devnet.storing_history, hhistory]
    rfl
  · have hnone : ∀ height, 20000 ≤ height → height < 2 ^ 64 →
        indexHeight (Devnet.onLine (count + 1)).chain.mBlocksIndex (Devnet.idOf height) = none :=
      fun height hge hlt => Devnet.onLine_unknown (by omega) hlt (by omega)
    rw [Devnet.storing_history, hhistory]
    simp only [List.findSome?_cons]
    rw [hnone 20005 (by omega) (by omega), hnone 20004 (by omega) (by omega),
      hnone 20003 (by omega) (by omega), hnone 20002 (by omega) (by omega),
      hnone 20001 (by omega) (by omega), Devnet.onLine_genesis (by omega)]

end DarknetSpace
