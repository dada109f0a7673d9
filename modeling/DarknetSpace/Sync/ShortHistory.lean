import DarknetSpace.Chain.AltJudged
import DarknetSpace.Core.AltStore
import DarknetSpace.Core.Links
import DarknetSpace.Core.Supply
import Mathlib.Order.Bounds.Basic

/-!
# Finding the fork point

A node describes its chain to another one by a short list of ids: its top ten
blocks, then blocks at doubling distances, then the genesis block. The other
node answers from the first of them that it knows.

The loop stands in three places, on the blocks of a node, on the ids a wallet
has seen and on a block index; it is one definition here, and each copy is that
definition on its own ids.
-/

namespace DarknetSpace

/-! ## The loop -/

/-- The `while` loop of the three copies. The offset grows in every round, so
`sz` rounds are enough. -/
def shortHistoryLoop (idAt : Nat → Hash) (sz : Nat) :
    (fuel i currentMultiplier currentBackOffset : Nat) → (ids : List Hash) →
    (genesisIncluded : Bool) → List Hash × Bool
  | 0, _, _, _, ids, genesisIncluded => (ids, genesisIncluded)
  | fuel + 1, i, mult, off, ids, genesisIncluded =>
    if off < sz then
      let ids := ids ++ [idAt (sz - off)]
      let genesisIncluded := if sz - off = 0 then true else genesisIncluded
      if i < 10 then shortHistoryLoop idAt sz fuel (i + 1) mult (off + 1) ids genesisIncluded
      else
        shortHistoryLoop idAt sz fuel (i + 1) (mult * 2) (off + mult * 2) ids genesisIncluded
    else (ids, genesisIncluded)

/-- The ids that `get_short_chain_history` sends, for a chain of so many blocks. -/
def shortHistory (idAt : Nat → Hash) (sz : Nat) : List Hash :=
  if sz = 0 then []
  else
    let (ids, genesisIncluded) := shortHistoryLoop idAt sz sz 0 1 1 [] false
    if genesisIncluded then ids else ids ++ [idAt 0]

/-- `blockchain_storage::get_short_chain_history`. -/
def Storage.getShortChainHistory (env : Env) (s : Storage) : List Hash :=
  shortHistory (fun h => (blockIds env s.mBlocks).getD h nullHash) s.mBlocks.length

/-- `wallet2::get_short_chain_history`, on `m_blockchain`. -/
def walletShortChainHistory (mBlockchain : List Hash) : List Hash :=
  shortHistory (fun h => mBlockchain.getD h nullHash) mBlockchain.length

/-- `BlockIndex::getShortChainHistory`, on `m_container`. -/
def indexShortChainHistory (mContainer : List Hash) : List Hash :=
  shortHistory (fun h => mContainer.getD h nullHash) mContainer.length

/-- `find_blockchain_supplement`: the height of the first known id, if the list
ends with the genesis block. -/
def Storage.findBlockchainSupplement (env : Env) (s : Storage) (qblockIds : List Hash) :
    Except Exn (Option Nat) := do
  match qblockIds.getLast? with
  | none => return none
  | some last =>
    let genesis ← s.blockAt 0
    if last ≠ getBlockHash env genesis.bl then return none
    return qblockIds.findSome? (indexHeight s.mBlocksIndex)

/-! ## The offsets of the loop -/

/-- The offsets the loop goes through. -/
def backOffsets (sz : Nat) : (fuel i mult off : Nat) → List Nat
  | 0, _, _, _ => []
  | fuel + 1, i, mult, off =>
    if off < sz then
      off :: if i < 10 then backOffsets sz fuel (i + 1) mult (off + 1)
        else backOffsets sz fuel (i + 1) (mult * 2) (off + mult * 2)
    else []

/-- The loop sends the ids at its offsets from the top. -/
theorem shortHistoryLoop_eq (idAt : Nat → Hash) (sz fuel i mult off : Nat) (ids : List Hash)
    (genesisIncluded : Bool) :
    shortHistoryLoop idAt sz fuel i mult off ids genesisIncluded =
      (ids ++ (backOffsets sz fuel i mult off).map (fun o => idAt (sz - o)), genesisIncluded) := by
  induction fuel generalizing i mult off ids with
  | zero =>
    rw [backOffsets, List.map_nil, List.append_nil]
    rfl
  | succ fuel ih =>
    unfold shortHistoryLoop backOffsets
    by_cases ho : off < sz
    · have hnot : ¬ sz - off = 0 := by omega
      simp only [if_pos ho, if_neg hnot]
      by_cases hi : i < 10
      · rw [if_pos hi, if_pos hi, ih, List.map_cons, List.append_assoc, List.singleton_append]
      · rw [if_neg hi, if_neg hi, ih, List.map_cons, List.append_assoc, List.singleton_append]
    · rw [if_neg ho, if_neg ho, List.map_nil, List.append_nil]

/-- Ten steps of one, then the distance doubles: the counters in step. -/
structure Stride (i mult off : Nat) : Prop where
  pos : 0 < mult
  slow : i ≤ 10 → mult = 1 ∧ off = i + 1
  fast : 10 ≤ i → off = 2 * mult + 9

theorem stride_start : Stride 0 1 1 := ⟨Nat.one_pos, fun _ => ⟨rfl, rfl⟩, fun h => by omega⟩

theorem Stride.next_slow {i mult off : Nat} (h : Stride i mult off) (hi : i < 10) :
    Stride (i + 1) mult (off + 1) := by
  obtain ⟨hm, ho⟩ := h.slow (Nat.le_of_lt hi)
  refine ⟨h.pos, fun _ => ⟨hm, by omega⟩, ?_⟩
  intro hi'
  omega

/-- and each of the others is twice the one before. -/
theorem Stride.next_fast {i mult off : Nat} (h : Stride i mult off) (hi : ¬ i < 10) :
    Stride (i + 1) (mult * 2) (off + mult * 2) := by
  have hm := h.pos
  have ho := h.fast (Nat.le_of_not_lt hi)
  refine ⟨by omega, ?_, ?_⟩
  · intro hi'
    omega
  · intro _
    omega

variable {sz fuel i mult off : Nat}

/-- The offsets stay within the chain, -/
theorem backOffsets_bounds (h : Stride i mult off) :
    ∀ o ∈ backOffsets sz fuel i mult off, off ≤ o ∧ o < sz := by
  induction fuel generalizing i mult off with
  | zero => exact nofun
  | succ fuel ih =>
    intro o ho
    unfold backOffsets at ho
    by_cases hlt : off < sz
    · rw [if_pos hlt, List.mem_cons] at ho
      rcases ho with rfl | ho
      · exact ⟨Nat.le_refl _, hlt⟩
      · by_cases hi : i < 10
        · rw [if_pos hi] at ho
          have := ih (h.next_slow hi) o ho
          omega
        · rw [if_neg hi] at ho
          have := ih (h.next_fast hi) o ho
          omega
    · rw [if_neg hlt] at ho
      cases ho

/-- and grow. -/
theorem backOffsets_sorted (h : Stride i mult off) :
    (backOffsets sz fuel i mult off).Pairwise (· < ·) := by
  induction fuel generalizing i mult off with
  | zero => exact List.Pairwise.nil
  | succ fuel ih =>
    unfold backOffsets
    by_cases hlt : off < sz
    · rw [if_pos hlt]
      by_cases hi : i < 10
      · rw [if_pos hi]
        refine List.Pairwise.cons ?_ (ih (h.next_slow hi))
        intro o ho
        have := (backOffsets_bounds (h.next_slow hi) o ho).1
        omega
      · rw [if_neg hi]
        have hm := h.pos
        refine List.Pairwise.cons ?_ (ih (h.next_fast hi))
        intro o ho
        have := (backOffsets_bounds (h.next_fast hi) o ho).1
        omega
    · rw [if_neg hlt]
      exact List.Pairwise.nil

/-- Some offset is at or behind `t` and not much further back than twice as
far; `sz` itself stands for the genesis block. -/
theorem backOffsets_reach (h : Stride i mult off) {t : Nat} (ht : t ≤ sz) (hoff : off ≤ 2 * t + 9)
    (hfuel : sz ≤ off + fuel) :
    ∃ o ∈ backOffsets sz fuel i mult off ++ [sz], t ≤ o ∧ o ≤ 2 * t + 9 := by
  induction fuel generalizing i mult off with
  | zero => exact ⟨sz, List.mem_append_right _ (List.mem_singleton.2 rfl), ht, by omega⟩
  | succ fuel ih =>
    unfold backOffsets
    by_cases hlt : off < sz
    · rw [if_pos hlt]
      by_cases hot : t ≤ off
      · exact ⟨off, List.mem_append_left _ List.mem_cons_self, hot, hoff⟩
      · by_cases hi : i < 10
        · rw [if_pos hi]
          obtain ⟨o, ho, hb⟩ := ih (h.next_slow hi) (by omega) (by omega)
          exact ⟨o, List.mem_cons_of_mem _ ho, hb⟩
        · rw [if_neg hi]
          -- the next offset is less than twice this one
          have hm := h.pos
          have hfast := h.fast (Nat.le_of_not_lt hi)
          obtain ⟨o, ho, hb⟩ := ih (h.next_fast hi) (by omega) (by omega)
          exact ⟨o, List.mem_cons_of_mem _ ho, hb⟩
    · rw [if_neg hlt]
      exact ⟨sz, List.mem_append_right _ (List.mem_singleton.2 rfl), ht, by omega⟩

/-! ## The heights in the list -/

/-- The heights of the blocks in the short history of a chain of `sz` blocks. -/
def shortHeights (sz : Nat) : List Nat := (backOffsets sz sz 0 1 1).map (sz - ·) ++ [0]

/-- The ids are those of some heights. -/
theorem shortHistory_eq (idAt : Nat → Hash) {sz : Nat} (h : 0 < sz) :
    shortHistory idAt sz = (shortHeights sz).map idAt := by
  unfold shortHistory shortHeights
  rw [if_neg (by omega), shortHistoryLoop_eq]
  simp only
  rw [List.nil_append, if_neg Bool.false_ne_true, List.map_append, List.map_map]
  rfl

/-- The heights are below the end, -/
theorem shortHeights_lt {sz : Nat} (hsz : 0 < sz) : ∀ h ∈ shortHeights sz, h < sz := by
  intro h hh
  rcases List.mem_append.1 hh with hh | hh
  · obtain ⟨o, ho, rfl⟩ := List.mem_map.1 hh
    have := backOffsets_bounds stride_start o ho
    omega
  · rw [List.mem_singleton.1 hh]
    exact hsz

/-- go down, -/
theorem shortHeights_sorted (sz : Nat) : (shortHeights sz).Pairwise (· > ·) := by
  unfold shortHeights
  rw [List.pairwise_append, List.pairwise_map]
  refine ⟨?_, List.pairwise_singleton _ _, ?_⟩
  · refine (backOffsets_sorted stride_start).imp_of_mem ?_
    intro o o' ho ho' hlt
    have := (backOffsets_bounds stride_start o ho).2
    have := (backOffsets_bounds stride_start o' ho').2
    omega
  · intro h hh z hz
    obtain ⟨o, ho, rfl⟩ := List.mem_map.1 hh
    have := (backOffsets_bounds stride_start o ho).2
    rw [List.mem_singleton.1 hz]
    omega

/-- start at the top, -/
theorem shortHeights_head {sz : Nat} (hsz : 0 < sz) : (shortHeights sz).head? = some (sz - 1) := by
  unfold shortHeights
  obtain ⟨n, rfl⟩ : ∃ n, sz = n + 1 := ⟨sz - 1, by omega⟩
  unfold backOffsets
  by_cases hn : 1 < n + 1
  · rw [if_pos hn]
    rfl
  · rw [if_neg hn]
    have : n = 0 := by omega
    rw [this]
    rfl

theorem shortHeights_last (sz : Nat) : (shortHeights sz).getLast? = some 0 := by
  rw [shortHeights, List.getLast?_concat]

/-- Some listed height is at or below `f`, at most twice as deep and ten more. -/
theorem shortHeights_reach {sz f : Nat} (hf : f < sz) :
    ∃ h ∈ shortHeights sz, h ≤ f ∧ sz - 1 - h ≤ 2 * (sz - 1 - f) + 10 := by
  have hfuel : sz ≤ 1 + sz := by omega
  obtain ⟨o, ho, hto, hle⟩ := backOffsets_reach stride_start (Nat.sub_le sz f) (by omega) hfuel
  rcases List.mem_append.1 ho with ho | ho
  · refine ⟨sz - o, List.mem_append_left _ (List.mem_map.2 ⟨o, ho, rfl⟩), by omega, ?_⟩
    have := (backOffsets_bounds stride_start o ho)
    omega
  · rw [List.mem_singleton.1 ho] at hto hle
    refine ⟨0, List.mem_append_right _ (List.mem_singleton.2 rfl), Nat.zero_le _, ?_⟩
    omega

/-! ## Two chains -/

/-- A chain as every node has it: linked, without repeated ids, and with its
index in step. -/
structure IndexedChain (env : Env) (s : Storage) : Prop where
  line : MainLine env s.mBlocks
  index : s.mBlocksIndex = blockIds env s.mBlocks
  nonempty : s.mBlocks ≠ []

theorem Reachable.indexedChain {env : Env} {n : Node} (hn : Reachable env n) : IndexedChain env n.chain where
  line := ((mainLine_invariant env).of_reachable (guaranteed_true env).admitted hn).2
  index := (hn.sound (guaranteed_true env)).1.index
  nonempty := hn.wellNumbered.2

/-- Two chains from one genesis block whose blocks are told apart by their ids. -/
structure SameOrigin (env : Env) (a b : Storage) : Prop where
  left : IndexedChain env a
  right : IndexedChain env b
  genesis : (blockIds env a.mBlocks)[0]? = (blockIds env b.mBlocks)[0]?
  collisionFree : ∀ e ∈ a.mBlocks, ∀ e' ∈ b.mBlocks,
    getBlockHash env e.bl = getBlockHash env e'.bl → e.bl = e'.bl

/-- The block of `a` at height `h` is on `b` too. -/
def CommonAt (env : Env) (a b : Storage) (h : Nat) : Prop :=
  ∃ id, (blockIds env a.mBlocks)[h]? = some id ∧ id ∈ blockIds env b.mBlocks

variable {env : Env} {a b : Storage}

theorem getElem?_blockIds {bs : List BlockEntry} {i : Nat} {id : Hash} :
    (blockIds env bs)[i]? = some id ↔ ∃ e, bs[i]? = some e ∧ getBlockHash env e.bl = id := by
  rw [blockIds, List.getElem?_map, Option.map_eq_some_iff]

theorem WellNumbered.index_unique {bs : List BlockEntry} (h : WellNumbered env bs) {i j : Nat}
    {id : Hash} (hi : (blockIds env bs)[i]? = some id) (hj : (blockIds env bs)[j]? = some id) :
    i = j :=
  (List.getElem?_inj (List.getElem?_eq_some_iff.1 hi).1 h.nodup).1 (hi.trans hj.symm)

/-- Below a common block the two chains have a common block. -/
theorem SameOrigin.below (h : SameOrigin env a b) {i j : Nat} {id : Hash}
    (hi : (blockIds env a.mBlocks)[i + 1]? = some id)
    (hj : (blockIds env b.mBlocks)[j + 1]? = some id) :
    ∃ id', (blockIds env a.mBlocks)[i]? = some id' ∧ (blockIds env b.mBlocks)[j]? = some id' := by
  obtain ⟨e, he, heid⟩ := getElem?_blockIds.1 hi
  obtain ⟨e', he', heid'⟩ := getElem?_blockIds.1 hj
  have hbl := h.collisionFree e (List.mem_of_getElem? he) e' (List.mem_of_getElem? he')
    (heid.trans heid'.symm)
  have hlt := (List.getElem?_eq_some_iff.1 he).1
  have hlt' := (List.getElem?_eq_some_iff.1 he').1
  have hbelow : a.mBlocks[i]? = some a.mBlocks[i] := List.getElem?_eq_getElem (by omega)
  have hbelow' : b.mBlocks[j]? = some b.mBlocks[j] := List.getElem?_eq_getElem (by omega)
  -- both name the block below by its id
  have hprev := h.left.line.2 i _ e hbelow he
  have hprev' := h.right.line.2 j _ e' hbelow' he'
  rw [hbl] at hprev
  exact ⟨e'.bl.prevId, getElem?_blockIds.2 ⟨_, hbelow, hprev.symm⟩,
    getElem?_blockIds.2 ⟨_, hbelow', hprev'.symm⟩⟩

/-- A common block stands at the same height in both. -/
theorem SameOrigin.height_eq (h : SameOrigin env a b) {i j : Nat} {id : Hash}
    (hi : (blockIds env a.mBlocks)[i]? = some id) (hj : (blockIds env b.mBlocks)[j]? = some id) :
    i = j := by
  induction i generalizing j id with
  | zero =>
    rw [h.genesis] at hi
    exact h.right.line.1.index_unique hi hj
  | succ i ih =>
    cases j with
    | zero =>
      rw [← h.genesis] at hj
      exact h.left.line.1.index_unique hi hj
    | succ j =>
      obtain ⟨id', hi', hj'⟩ := h.below hi hj
      rw [ih hi' hj']

/-- A common block is one with the same id at the same height. -/
theorem SameOrigin.commonAt_iff (h : SameOrigin env a b) {i : Nat} :
    CommonAt env a b i ↔
      ∃ id, (blockIds env a.mBlocks)[i]? = some id ∧ (blockIds env b.mBlocks)[i]? = some id := by
  constructor
  · rintro ⟨id, hi, hmem⟩
    obtain ⟨j, hj⟩ := List.mem_iff_getElem?.1 hmem
    rw [← h.height_eq hi hj] at hj
    exact ⟨id, hi, hj⟩
  · rintro ⟨id, hi, hj⟩
    exact ⟨id, hi, List.mem_of_getElem? hj⟩

/-- What lies below a common block is common. -/
theorem SameOrigin.commonAt_of_le (h : SameOrigin env a b) {i j : Nat} (hj : CommonAt env a b j)
    (hij : i ≤ j) : CommonAt env a b i := by
  induction j with
  | zero =>
    rw [Nat.le_zero.1 hij]
    exact hj
  | succ j ih =>
    by_cases heq : i = j + 1
    · rw [heq]
      exact hj
    · obtain ⟨id, ha, hb⟩ := h.commonAt_iff.1 hj
      exact ih (h.commonAt_iff.2 (h.below ha hb)) (by omega)

theorem SameOrigin.commonAt_zero (h : SameOrigin env a b) : CommonAt env a b 0 := by
  have hpos := List.length_pos_of_ne_nil h.left.nonempty
  have hzero : (blockIds env a.mBlocks)[0]? = some (getBlockHash env a.mBlocks[0].bl) :=
    getElem?_blockIds.2 ⟨_, List.getElem?_eq_getElem hpos, rfl⟩
  exact h.commonAt_iff.2 ⟨_, hzero, h.genesis ▸ hzero⟩

theorem CommonAt.lt {i : Nat} (h : CommonAt env a b i) : i < a.mBlocks.length := by
  obtain ⟨id, hi, -⟩ := h
  obtain ⟨e, he, -⟩ := getElem?_blockIds.1 hi
  exact (List.getElem?_eq_some_iff.1 he).1

/-- There is a last common block, and the common ones are those up to it. -/
theorem SameOrigin.exists_last (h : SameOrigin env a b) :
    ∃ f, f < a.mBlocks.length ∧ ∀ i, CommonAt env a b i ↔ i ≤ f := by
  classical
  have hlast : CommonAt env a b (Nat.findGreatest (CommonAt env a b) a.mBlocks.length) :=
    Nat.findGreatest_spec (Nat.zero_le _) h.commonAt_zero
  refine ⟨_, hlast.lt, ?_⟩
  intro i
  constructor
  · intro hi
    exact Nat.le_findGreatest (Nat.le_of_lt hi.lt) hi
  · intro hi
    exact h.commonAt_of_le hlast hi

/-- `b` finds a common block at its height and no other one. -/
theorem SameOrigin.indexHeight_eq (h : SameOrigin env a b) {i : Nat} (hi : i < a.mBlocks.length) :
    (CommonAt env a b i →
      indexHeight b.mBlocksIndex ((blockIds env a.mBlocks).getD i nullHash) = some i) ∧
    (¬ CommonAt env a b i →
      indexHeight b.mBlocksIndex ((blockIds env a.mBlocks).getD i nullHash) = none) := by
  have hid : (blockIds env a.mBlocks)[i]? = some (getBlockHash env a.mBlocks[i].bl) :=
    getElem?_blockIds.2 ⟨_, List.getElem?_eq_getElem hi, rfl⟩
  rw [List.getD_eq_getElem?_getD, hid, Option.getD_some, h.right.index]
  unfold indexHeight
  constructor
  · intro hc
    obtain ⟨id, ha, hb⟩ := h.commonAt_iff.1 hc
    rw [hid] at ha
    cases ha
    have hmem := List.mem_of_getElem? hb
    cases hfound : (blockIds env b.mBlocks).idxOf? (getBlockHash env a.mBlocks[i].bl) with
    | none => exact absurd hmem (List.idxOf?_eq_none_iff.1 hfound)
    | some j => rw [h.right.line.1.index_unique (getElem?_of_indexHeight hfound) hb]
  · intro hc
    rw [List.idxOf?_eq_none_iff]
    intro hmem
    exact hc ⟨_, hid, hmem⟩

/-- The first known id of a list of falling heights is the highest common one. -/
theorem SameOrigin.findSome?_heights (h : SameOrigin env a b) {f : Nat}
    (hf : ∀ i, CommonAt env a b i ↔ i ≤ f) {heights : List Nat}
    (hlt : ∀ i ∈ heights, i < a.mBlocks.length) (hsorted : heights.Pairwise (· > ·))
    {low : Nat} (hlow : low ∈ heights) (hle : low ≤ f) :
    ∃ start ∈ heights, (heights.map fun i => (blockIds env a.mBlocks).getD i nullHash).findSome?
        (indexHeight b.mBlocksIndex) = some start ∧ start ≤ f ∧
      ∀ i ∈ heights, i ≤ f → i ≤ start := by
  induction heights with
  | nil => cases hlow
  | cons top rest ih =>
    obtain ⟨hbelow, hrest⟩ := List.pairwise_cons.1 hsorted
    have hlook := h.indexHeight_eq (hlt top List.mem_cons_self)
    rw [hf] at hlook
    by_cases htop : top ≤ f
    · refine ⟨top, List.mem_cons_self, ?_, htop, ?_⟩
      · rw [List.map_cons, List.findSome?_cons, hlook.1 htop]
      · intro i hi _
        rcases List.mem_cons.1 hi with rfl | hi
        · exact Nat.le_refl _
        · exact Nat.le_of_lt (hbelow i hi)
    · have hmem : low ∈ rest := by
        rcases List.mem_cons.1 hlow with rfl | hmem
        · exact absurd hle htop
        · exact hmem
      obtain ⟨start, hstart, hfind, hsf, hmax⟩ :=
        ih (fun i hi => hlt i (List.mem_cons_of_mem _ hi)) hrest hmem
      refine ⟨start, List.mem_cons_of_mem _ hstart, ?_, hsf, ?_⟩
      · rw [List.map_cons, List.findSome?_cons, hlook.2 htop]
        exact hfind
      · intro i hi hif
        rcases List.mem_cons.1 hi with rfl | hi
        · exact absurd hif htop
        · exact hmax i hi hif

/-- A list that ends with the genesis block is searched. -/
theorem SameOrigin.findBlockchainSupplement_eq (h : SameOrigin env a b) {q : List Hash}
    (hq : q.getLast? = some ((blockIds env a.mBlocks).getD 0 nullHash)) :
    b.findBlockchainSupplement env q = .ok (q.findSome? (indexHeight b.mBlocksIndex)) := by
  obtain ⟨id, ha, hb⟩ := h.commonAt_iff.1 h.commonAt_zero
  obtain ⟨e, he, heid⟩ := getElem?_blockIds.1 hb
  rw [List.getD_eq_getElem?_getD, ha, Option.getD_some] at hq
  unfold Storage.findBlockchainSupplement Storage.blockAt
  rw [hq, he]
  simp only [bind, Except.bind]
  rw [if_neg (not_not.2 heid.symm)]
  rfl

/-- Two nodes find a fork point: the short history of `a` falls from its top to
the genesis block, and `b` answers from the highest block in it that both have,
which is at most twice as deep as the fork and ten more. -/
theorem fork_point_found (h : SameOrigin env a b) :
    ∃ heights : List Nat,
      a.getShortChainHistory env =
          heights.map (fun i => (blockIds env a.mBlocks).getD i nullHash) ∧
      heights.Pairwise (· > ·) ∧ heights.head? = some (a.mBlocks.length - 1) ∧
      heights.getLast? = some 0 ∧
      ∃ start, b.findBlockchainSupplement env (a.getShortChainHistory env) = .ok (some start) ∧
        IsGreatest { i | i ∈ heights ∧ CommonAt env a b i } start ∧
        ∃ f, IsGreatest { i | CommonAt env a b i } f ∧ start ≤ f ∧
          a.mBlocks.length - 1 - start ≤ 2 * (a.mBlocks.length - 1 - f) + 10 ∧
      walletShortChainHistory (blockIds env a.mBlocks) = a.getShortChainHistory env ∧
      indexShortChainHistory (blockIds env a.mBlocks) = a.getShortChainHistory env := by
  have hpos := List.length_pos_of_ne_nil h.left.nonempty
  have hids : (blockIds env a.mBlocks).length = a.mBlocks.length := by
    rw [blockIds, List.length_map]
  obtain ⟨f, hflt, hf⟩ := h.exists_last
  obtain ⟨low, hlow, hle, hreach⟩ := shortHeights_reach hflt
  obtain ⟨start, hstart, hfind, hsf, hmax⟩ := h.findSome?_heights hf (shortHeights_lt hpos)
    (shortHeights_sorted _) hlow hle
  have hhist := shortHistory_eq (fun i => (blockIds env a.mBlocks).getD i nullHash) hpos
  refine ⟨shortHeights a.mBlocks.length, hhist, shortHeights_sorted _, shortHeights_head hpos,
    shortHeights_last _, start, ?_, ⟨⟨hstart, (hf start).2 hsf⟩, ?_⟩, f,
    ⟨(hf f).2 (Nat.le_refl _), fun i hi => (hf i).1 hi⟩, hsf, ?_, ?_, ?_⟩
  · have hlast : (a.getShortChainHistory env).getLast? =
        some ((blockIds env a.mBlocks).getD 0 nullHash) := by
      rw [Storage.getShortChainHistory, hhist, List.getLast?_map, shortHeights_last]
      rfl
    rw [h.findBlockchainSupplement_eq hlast, Storage.getShortChainHistory, hhist, hfind]
  · rintro i ⟨hi, hc⟩
    exact hmax i hi ((hf i).1 hc)
  · have := hmax low hlow hle
    omega
  · rw [walletShortChainHistory, hids]
    rfl
  · rw [indexShortChainHistory, hids]
    rfl

/-- Two nodes that agree up to the first block above genesis. -/
def Devnet.otherSecond : List Event := [.newBlock (mainBlock 1), .newBlock fork]

/-- Two chains that part above the genesis block. -/
theorem fork_point_found_devnet :
    ∃ start ≤ 1, (Devnet.node ∅ Devnet.otherSecond).chain.findBlockchainSupplement Devnet.env
      ((Devnet.node ∅ Devnet.twoBlocks).chain.getShortChainHistory Devnet.env) =
        .ok (some start) := by
  have eval : (Devnet.run ∅ Devnet.twoBlocks).isSome = true ∧
      (Devnet.run ∅ Devnet.otherSecond).isSome = true ∧
      (blockIds Devnet.env (Devnet.node ∅ Devnet.twoBlocks).chain.mBlocks)[0]? =
        (blockIds Devnet.env (Devnet.node ∅ Devnet.otherSecond).chain.mBlocks)[0]? ∧
      (∀ e ∈ (Devnet.node ∅ Devnet.twoBlocks).chain.mBlocks,
        ∀ e' ∈ (Devnet.node ∅ Devnet.otherSecond).chain.mBlocks,
          getBlockHash Devnet.env e.bl = getBlockHash Devnet.env e'.bl → e.bl = e'.bl) ∧
      (blockIds Devnet.env (Devnet.node ∅ Devnet.twoBlocks).chain.mBlocks).length = 3 ∧
      (blockIds Devnet.env (Devnet.node ∅ Devnet.twoBlocks).chain.mBlocks).getD 2 nullHash ∉
        blockIds Devnet.env (Devnet.node ∅ Devnet.otherSecond).chain.mBlocks := by
    decide +kernel
  obtain ⟨hrun, hrun', hgenesis, hfree, hlen, hnot⟩ := eval
  have hfar : SameOrigin Devnet.env (Devnet.node ∅ Devnet.twoBlocks).chain
      (Devnet.node ∅ Devnet.otherSecond).chain :=
    ⟨(Devnet.reachable_node ∅ _ hrun).indexedChain, (Devnet.reachable_node ∅ _ hrun').indexedChain, hgenesis,
      hfree⟩
  generalize (Devnet.node ∅ Devnet.twoBlocks).chain = a at *
  generalize (Devnet.node ∅ Devnet.otherSecond).chain = b at *
  obtain ⟨_, -, -, -, -, start, hfind, ⟨⟨-, hc⟩, -⟩, -⟩ := fork_point_found hfar
  refine ⟨start, ?_, hfind⟩
  have hlt := hc.lt
  rw [blockIds, List.length_map] at hlen
  by_contra hle
  have hstart : start = 2 := by omega
  obtain ⟨id, hid, hmem⟩ := hc
  rw [List.getD_eq_getElem?_getD, ← hstart, hid] at hnot
  exact hnot hmem

end DarknetSpace
