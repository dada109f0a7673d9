import DarknetSpace.Core.BlockId
import Mathlib.Data.Nat.Pairing

/-!
# Hashing a tree in place (`crypto/tree-hash.c`)

`tree_hash` works on two arrays of hashes: the leaves, which it reads, and a
buffer of its own for one level of the tree. The size of the first level comes
from smearing the highest bit of `count - 1` over all the bits below it; a level
is hashed into the front half of the buffer while the buffer is still being read.

A slot of the buffer that has not been written holds nothing: a read outside the
arrays or of such a slot has no result, nor has a write outside.

The loops are proved one at a time: what the buffer holds in front of the place that is
written is the new level, behind the place that is read the old one, and the two never
cross. With that `tree_hash_is_merkle_root` is an equation with the tree of
`Lib/TreeHash`, for every count and compression function.
-/

namespace DarknetSpace

namespace TreeHash

variable {δ : Type}

/-! ## The source -/

def hashSize : Nat := 32

/-- The slots of an array of hashes. -/
abbrev Slots (δ : Type) := List (Option δ)

/-- The 64 bytes from slot `i` on. -/
def readPair (buf : Slots δ) (i : Nat) : Option (δ × δ) := do
  let a ← buf[i]?.join
  let b ← buf[i + 1]?.join
  return (a, b)

def writeHash (buf : Slots δ) (j : Nat) (h : δ) : Option (Slots δ) :=
  if j < buf.length then some (buf.set j (some h)) else none

/-- `for (i = 1; i < 8 * sizeof(size_t); i <<= 1) cnt |= cnt >> i;` -/
def smear : (fuel : Nat) → (i : Nat) → BitVec 64 → BitVec 64
  | 0, _, cnt => cnt
  | fuel + 1, i, cnt => if i < 64 then smear fuel (2 * i) (cnt ||| cnt >>> i) else cnt

/-- The size of the first level, from `count - 1`. -/
def levelSize (cnt : BitVec 64) : BitVec 64 :=
  let smeared := smear 7 1 cnt
  smeared &&& ~~~(smeared >>> 1)

/-- `cn_fast_hash(from[i], 64, ints[j])` with `i += 2, ++j`, so many rounds, and where
`i` gets to. What is read is the leaves or the buffer itself. -/
def pairLoop (node : δ × δ → δ) (src : Slots δ → Slots δ) :
    (rounds i j : Nat) → (ints : Slots δ) → Option (Nat × Slots δ)
  | 0, i, _, ints => some (i, ints)
  | rounds + 1, i, j, ints => do
    let p ← readPair (src ints) i
    let ints ← writeHash ints j (node p)
    pairLoop node src rounds (i + 2) (j + 1) ints

/-- `while (cnt > 2)`; a `size_t` is halved sixty-three times at most. -/
def foldLevels (node : δ × δ → δ) : (fuel : Nat) → (cnt : Nat) → Slots δ → Option (Slots δ)
  | 0, _, _ => none
  | fuel + 1, cnt, ints =>
    if 2 < cnt then do
      let (_, ints) ← pairLoop node id (cnt / 2) 0 0 ints
      foldLevels node fuel (cnt / 2) ints
    else some ints

/-- `memcpy(ints, hashes, m * HASH_SIZE)`. -/
def copyHashes (ints hashes : Slots δ) (m : Nat) : Option (Slots δ) :=
  if m ≤ hashes.length ∧ m ≤ ints.length then some (hashes.take m ++ ints.drop m) else none

/-- `tree_hash`. An assertion rules out that there is nothing to hash, and another one
that the first level leaves a hash over. -/
def treeHash (node : δ × δ → δ) (leaves : List δ) : Option δ :=
  let hashes : Slots δ := leaves.map some
  let count := leaves.length
  if count = 0 then none
  else if count = 1 then hashes[0]?.join
  else if count = 2 then (readPair hashes 0).map node
  else do
    let cnt := (levelSize (BitVec.ofNat 64 (count - 1))).toNat
    -- `alloca(cnt * HASH_SIZE)`
    let ints : Slots δ := List.replicate (cnt * hashSize % 2 ^ 64 / hashSize) none
    -- `2 * cnt - count`
    let kept := (2 * cnt + (2 ^ 64 - count)) % 2 ^ 64
    let ints ← copyHashes ints hashes kept
    let (i, ints) ← pairLoop node (fun _ => hashes) (cnt - kept) kept kept ints
    if i ≠ count then none
    else do
      let ints ← foldLevels node 64 cnt ints
      (readPair ints 0).map node

/-! ## The highest bit -/

theorem smear_getLsbD {fuel m : Nat} (hfuel : fuel + m = 7) (cnt x : BitVec 64)
    (h : ∀ k, cnt.getLsbD k = true ↔ ∃ j, j < 2 ^ m ∧ x.getLsbD (k + j) = true) (k : Nat) :
    (smear fuel (2 ^ m) cnt).getLsbD k = true ↔ ∃ j, x.getLsbD (k + j) = true := by
  induction fuel generalizing m cnt with
  | zero =>
    -- no bit is further than 128 away
    have hm : m = 7 := by omega
    unfold smear
    rw [h, hm]
    constructor
    · rintro ⟨j, -, hj⟩
      exact ⟨j, hj⟩
    · rintro ⟨j, hj⟩
      have hlt := BitVec.lt_of_getLsbD hj
      exact ⟨j, by omega, hj⟩
  | succ fuel ih =>
    unfold smear
    by_cases hm : 2 ^ m < 64
    · rw [if_pos hm, show 2 * 2 ^ m = 2 ^ (m + 1) by rw [Nat.pow_succ]; omega]
      refine ih (by omega) _ ?_
      intro k
      rw [BitVec.getLsbD_or, BitVec.getLsbD_ushiftRight, Bool.or_eq_true, h, h, Nat.pow_succ]
      constructor
      · rintro (⟨j, hj, hbit⟩ | ⟨j, hj, hbit⟩)
        · exact ⟨j, by omega, hbit⟩
        · exact ⟨2 ^ m + j, by omega, by rw [← hbit]; congr 1; omega⟩
      · rintro ⟨j, hj, hbit⟩
        by_cases hnear : j < 2 ^ m
        · exact .inl ⟨j, hnear, hbit⟩
        · exact .inr ⟨j - 2 ^ m, by omega, by rw [← hbit]; congr 1; omega⟩
    · rw [if_neg hm, h]
      constructor
      · rintro ⟨j, -, hj⟩
        exact ⟨j, hj⟩
      · rintro ⟨j, hj⟩
        have hlt := BitVec.lt_of_getLsbD hj
        exact ⟨j, by omega, hj⟩

/-- What is left of the smeared number is its highest bit. -/
theorem levelSize_toNat {n : Nat} (hpos : n ≠ 0) (hlt : n < 2 ^ 64) :
    (levelSize (BitVec.ofNat 64 n)).toNat = 2 ^ n.log2 := by
  have hbit : ∀ k, (BitVec.ofNat 64 n).getLsbD k = n.testBit k := by
    intro k
    rw [BitVec.getLsbD, BitVec.toNat_ofNat, Nat.mod_eq_of_lt hlt]
  have hsmeared : ∀ k, (smear 7 1 (BitVec.ofNat 64 n)).getLsbD k = true ↔ k ≤ n.log2 := by
    intro k
    rw [show (1 : Nat) = 2 ^ 0 from rfl, smear_getLsbD (m := 0) rfl _ (BitVec.ofNat 64 n) ?_ k]
    · simp only [hbit]
      constructor
      · rintro ⟨j, hj⟩
        have hge := Nat.ge_two_pow_of_testBit hj
        have hle := (Nat.le_log2 hpos).2 hge
        omega
      · intro hk
        exact ⟨n.log2 - k, by rw [Nat.add_sub_cancel' hk]; exact Nat.testBit_log2 hpos⟩
    · intro k
      constructor
      · intro hk
        exact ⟨0, by decide, hk⟩
      · rintro ⟨j, hj, hk⟩
        rw [show j = 0 by omega] at hk
        exact hk
  have hlog : n.log2 < 64 := (Nat.log2_lt hpos).2 hlt
  apply Nat.eq_of_testBit_eq
  intro k
  rw [Nat.testBit_two_pow]
  show (levelSize (BitVec.ofNat 64 n)).getLsbD k = _
  unfold levelSize
  simp only
  rw [BitVec.getLsbD_and, BitVec.getLsbD_not, BitVec.getLsbD_ushiftRight, Bool.eq_iff_iff,
    Bool.and_eq_true, Bool.and_eq_true, Bool.not_eq_true', ← Bool.not_eq_true, hsmeared, hsmeared,
    decide_eq_true_eq, decide_eq_true_eq]
  omega

/-! ## Loops over the buffer -/

/-- The slots from `i` on begin with these hashes. -/
def Holds (buf : Slots δ) (i : Nat) (xs : List δ) : Prop := xs.map some <+: buf.drop i

theorem Holds.get {buf : Slots δ} {i : Nat} {x : δ} {xs : List δ} (h : Holds buf i (x :: xs)) :
    buf[i]? = some (some x) ∧ Holds buf (i + 1) xs := by
  obtain ⟨rest, hrest⟩ := h
  constructor
  · have hget := congrArg (·[0]?) hrest
    simp only [List.map_cons, List.cons_append, List.getElem?_cons_zero, List.getElem?_drop,
      Nat.add_zero] at hget
    exact hget.symm
  · refine ⟨rest, ?_⟩
    have htail := congrArg (List.drop 1) hrest
    rw [List.drop_drop] at htail
    exact htail

theorem readPair_eq {buf : Slots δ} {i : Nat} {a b : δ} {xs : List δ}
    (h : Holds buf i (a :: b :: xs)) : readPair buf i = some (a, b) ∧ Holds buf (i + 2) xs := by
  obtain ⟨ha, hb⟩ := h.get
  obtain ⟨hb, hrest⟩ := hb.get
  refine ⟨?_, hrest⟩
  unfold readPair
  rw [ha, hb]
  rfl

variable (node : δ × δ → δ) {src : Slots δ → Slots δ}

/-- What is read is further on than what has been written: the leaves, or the
buffer behind the writes. -/
def ReadsAhead (src : Slots δ → Slots δ) : Prop :=
  ∀ (ints : Slots δ) (i j : Nat) (v : Option δ), j < i → (src (ints.set j v)).drop i = (src ints).drop i

theorem readsAhead_id : ReadsAhead (id : Slots δ → Slots δ) :=
  fun _ _ _ _ hlt => List.drop_set_of_lt hlt

theorem readsAhead_const (hashes : Slots δ) : ReadsAhead fun _ => hashes := fun _ _ _ _ _ => rfl

/-- A loop over an even number of hashes puts the hashes of their pairs in front. -/
theorem pairLoop_eq (hsrc : ReadsAhead src) {rounds : Nat} {i j : Nat} {xs : List δ} {ints : Slots δ}
    (hlen : xs.length = 2 * rounds) (hxs : Holds (src ints) i xs) (hij : j ≤ i)
    (hroom : j + rounds ≤ ints.length) :
    ∃ ints', pairLoop node src rounds i j ints = some (i + 2 * rounds, ints') ∧
      ints'.length = ints.length ∧
      ints'.take j = ints.take j ∧ Holds ints' j ((pairs xs).map node) := by
  induction rounds generalizing i j xs ints with
  | zero =>
    rw [List.length_eq_zero_iff.1 (show xs.length = 0 by omega)]
    exact ⟨ints, rfl, rfl, rfl, List.nil_prefix⟩
  | succ rounds ih =>
    match xs with
    | [] => cases hlen
    | [_] => simp only [List.length_singleton] at hlen; omega
    | a :: b :: rest =>
      rw [List.length_cons, List.length_cons] at hlen
      obtain ⟨hread, hrest⟩ := readPair_eq hxs
      have hahead := hsrc ints (i + 2) j (some (node (a, b))) (by omega)
      have hrest' : Holds (src (ints.set j (some (node (a, b))))) (i + 2) rest := by
        unfold Holds
        rw [hahead]
        exact hrest
      have hlength : (ints.set j (some (node (a, b)))).length = ints.length := List.length_set
      obtain ⟨ints', hloop, hlen', htake, hholds⟩ := ih (j := j + 1) (by omega) hrest' (by omega)
        (by rw [hlength]; omega)
      refine ⟨ints', ?_, hlen'.trans hlength, ?_, ?_⟩
      · unfold pairLoop
        rw [hread]
        simp only [Option.bind_eq_bind, Option.bind_some]
        unfold writeHash
        rw [if_pos (show j < ints.length by omega)]
        rw [show i + 2 * (rounds + 1) = i + 2 + 2 * rounds by omega]
        exact hloop
      · have hfront := congrArg (List.take j) htake
        rw [List.take_take, List.take_take, Nat.min_eq_left (Nat.le_succ j),
          List.take_set_of_le (Nat.le_refl j)] at hfront
        exact hfront
      · -- the slot just written, and the rest behind it
        have hslot : ints'[j]? = some (some (node (a, b))) := by
          have hget := congrArg (·[j]?) htake
          simp only [List.getElem?_take_of_lt (Nat.lt_succ_self j)] at hget
          rw [hget, List.getElem?_set_self (by omega)]
        obtain ⟨behind, hbehind⟩ := hholds
        refine ⟨behind, ?_⟩
        have hcons := List.drop_eq_getElem?_toList_append (l := ints') (i := j)
        rw [hslot] at hcons
        rw [hcons, ← hbehind]
        rfl

/-- Level by level down to the last two. -/
theorem foldLevels_eq {fuel k : Nat} {xs : List δ} {ints : Slots δ} (hfuel : k < fuel) (d : δ)
    (hlen : xs.length = 2 ^ (k + 1)) (hxs : Holds ints 0 xs) (hroom : 2 ^ (k + 1) ≤ ints.length) :
    ∃ ints' a b, foldLevels node fuel (2 ^ (k + 1)) ints = some ints' ∧
      readPair ints' 0 = some (a, b) ∧ node (a, b) = levels node d (k + 1) xs := by
  induction k generalizing fuel xs ints with
  | zero =>
    obtain ⟨a, b, rfl⟩ := List.length_eq_two.1 hlen
    obtain ⟨fuel, rfl⟩ : ∃ f, fuel = f + 1 := ⟨fuel - 1, by omega⟩
    refine ⟨ints, a, b, ?_, (readPair_eq hxs).1, rfl⟩
    unfold foldLevels
    rw [if_neg (by decide)]
  | succ k ih =>
    obtain ⟨fuel, rfl⟩ : ∃ f, fuel = f + 1 := ⟨fuel - 1, by omega⟩
    have hpow : 2 ^ (k + 1 + 1) = 2 * 2 ^ (k + 1) := by rw [Nat.pow_succ 2 (k + 1)]; omega
    have hpos : 2 ≤ 2 ^ (k + 1) := by
      rw [Nat.pow_succ]
      have := Nat.two_pow_pos k
      omega
    obtain ⟨ints₁, hloop, hlen₁, -, hholds⟩ := pairLoop_eq node readsAhead_id
      (hlen.trans hpow) hxs (Nat.le_refl 0) (by omega)
    have hhalf : ((pairs xs).map node).length = 2 ^ (k + 1) := by
      rw [List.length_map, pairs_length, hlen, hpow]
      omega
    obtain ⟨ints', a, b, hfold, hread, hnode⟩ := ih (Nat.lt_of_succ_lt_succ hfuel) hhalf hholds
      (by omega)
    refine ⟨ints', a, b, ?_, hread, hnode⟩
    unfold foldLevels
    rw [if_pos (by omega), show 2 ^ (k + 1 + 1) / 2 = 2 ^ (k + 1) by omega, hloop]
    exact hfold

/-! ## The root -/

theorem height_pos {leaves : List δ} (h : 3 ≤ leaves.length) : 0 < height leaves := by
  unfold height
  exact (Nat.le_log2 (by omega)).2 (by omega)

/-- A tree of three leaves or more. -/
theorem treeHash_many {leaves : List δ} (d : δ) (h : 3 ≤ leaves.length)
    (hfits : leaves.length * hashSize ≤ 2 ^ 64) :
    treeHash node leaves = some (root node d leaves) := by
  have hbounds : 2 ^ height leaves ≤ leaves.length ∧ leaves.length ≤ 2 * 2 ^ height leaves :=
    kept_bounds (by omega)
  obtain ⟨hlow, hhigh⟩ := hbounds
  have hpos := height_pos h
  obtain ⟨k, hk⟩ : ∃ k, height leaves = k + 1 := ⟨height leaves - 1, by omega⟩
  have hcount : leaves.length ≤ 2 ^ 59 := by
    unfold hashSize at hfits
    omega
  -- the size of the first level, below 2 ^ 59
  have hstrict : 2 ^ height leaves < leaves.length := by
    have hself : 2 ^ (leaves.length - 1).log2 ≤ leaves.length - 1 := Nat.log2_self_le (by omega)
    unfold height
    omega
  have hcnt : (levelSize (BitVec.ofNat 64 (leaves.length - 1))).toNat = 2 ^ height leaves :=
    levelSize_toNat (by omega) (by omega)
  have hroom : 2 ^ height leaves * hashSize % 2 ^ 64 / hashSize = 2 ^ height leaves := by
    unfold hashSize
    omega
  have hkept : (2 * 2 ^ height leaves + (2 ^ 64 - leaves.length)) % 2 ^ 64 = kept leaves := by
    unfold kept
    omega
  have hkeptle : kept leaves ≤ 2 ^ height leaves ∧ kept leaves ≤ leaves.length := by
    unfold kept
    omega
  unfold treeHash
  simp only
  rw [if_neg (by omega), if_neg (by omega), if_neg (by omega), hcnt, hroom, hkept]
  -- the leaves that stay
  have hcopy : copyHashes (List.replicate (2 ^ height leaves) none) (leaves.map some) (kept leaves) =
      some ((leaves.map some).take (kept leaves) ++
        (List.replicate (2 ^ height leaves) (none : Option δ)).drop (kept leaves)) := by
    unfold copyHashes
    rw [if_pos ⟨by rw [List.length_map]; exact hkeptle.2,
      by rw [List.length_replicate]; exact hkeptle.1⟩]
  rw [hcopy]
  simp only [Option.bind_eq_bind, Option.bind_some]
  -- the others, in pairs
  have hlen : ((leaves.map some).take (kept leaves) ++
      (List.replicate (2 ^ height leaves) (none : Option δ)).drop (kept leaves)).length =
        2 ^ height leaves := by
    rw [List.length_append, List.length_take, List.length_map, List.length_drop,
      List.length_replicate]
    omega
  have hothers : (leaves.drop (kept leaves)).length = 2 * (2 ^ height leaves - kept leaves) := by
    rw [List.length_drop]
    unfold kept
    omega
  have hthere : Holds (leaves.map some) (kept leaves) (leaves.drop (kept leaves)) := by
    unfold Holds
    exact ⟨[], by rw [List.append_nil, List.map_drop]⟩
  obtain ⟨ints₁, hloop, hlen₁, htake, hholds⟩ := pairLoop_eq node
    (readsAhead_const (leaves.map some)) hothers hthere (Nat.le_refl _) (by
      rw [hlen]
      omega)
  have hall : ¬ kept leaves + 2 * (2 ^ height leaves - kept leaves) ≠ leaves.length := by
    rw [List.length_drop] at hothers
    omega
  rw [hloop]
  simp only [Option.bind_some]
  rw [if_neg hall]
  rw [hlen] at hlen₁
  -- together they are the first level
  have hfirst : Holds ints₁ 0 (firstLevel node leaves) := by
    obtain ⟨behind, hbehind⟩ := hholds
    refine ⟨behind, ?_⟩
    rw [List.take_left' (by rw [List.length_take, List.length_map]; omega)] at htake
    unfold firstLevel
    rw [List.map_append, List.append_assoc, hbehind, List.map_take, ← htake, List.drop_zero]
    exact List.take_append_drop _ _
  have hsize : (firstLevel node leaves).length = 2 ^ height leaves := firstLevel_length (by omega)
  rw [hk] at hsize hlen₁ ⊢
  have hheight : height leaves < 64 := by
    unfold height
    exact (Nat.log2_lt (by omega)).2 (by omega)
  obtain ⟨ints', a, b, hfold, hread, hnode⟩ := foldLevels_eq node (show k < 64 by omega) d hsize
    hfirst (Nat.le_of_eq hlen₁.symm)
  rw [hfold]
  simp only [Option.bind_some]
  rw [hread, Option.map_some, hnode]
  unfold root
  rw [hk]

/-- `tree_hash` stays within its arrays and gives the root. -/
theorem treeHash_eq_root {leaves : List δ} (d : δ) (hpos : 0 < leaves.length)
    (hfits : leaves.length * hashSize ≤ 2 ^ 64) :
    treeHash node leaves = some (root node d leaves) := by
  match leaves with
  | [_] => rfl
  | [_, _] => rfl
  | a :: b :: c :: rest =>
    refine treeHash_many node d ?_ hfits
    simp only [List.length_cons]
    omega

/-- The shape of the tree: `c` nodes on the first level of two leaves or more. -/
theorem root_shape {leaves : List δ} (d : δ) (h : 2 ≤ leaves.length) :
    ∃ k, 2 ^ k < leaves.length ∧ leaves.length ≤ 2 * 2 ^ k ∧
      root node d leaves = levels node d k (leaves.take (2 * 2 ^ k - leaves.length) ++
        (pairs (leaves.drop (2 * 2 ^ k - leaves.length))).map node) := by
  have hself : 2 ^ (leaves.length - 1).log2 ≤ leaves.length - 1 := Nat.log2_self_le (by omega)
  refine ⟨height leaves, ?_, (kept_bounds (by omega)).2, rfl⟩
  unfold height
  omega

end TreeHash

/-- The tree of a block is hashed by the loops of the source. -/
theorem treeHash_in_place {cn : Blob → Hash} {hs : List Hash} (hpos : 0 < hs.length)
    (hfits : hs.length * TreeHash.hashSize ≤ 2 ^ 64) :
    TreeHash.treeHash (hashPair cn) hs = some (treeHash cn hs) := by
  rw [treeHash_eq_root]
  exact TreeHash.treeHash_eq_root (hashPair cn) nullHash hpos hfits

/-- `tree_hash` gives the Merkle root, and where the compression function is
injective the root fixes the leaves of a list of known length; so a block's id,
made of root and count, fixes its transactions. -/
theorem tree_hash_is_merkle_root {δ : Type} (node : δ × δ → δ) (d : δ) :
    (∀ leaves : List δ, 1 ≤ leaves.length → leaves.length * TreeHash.hashSize ≤ 2 ^ 64 →
      ∃ r, TreeHash.treeHash node leaves = some r ∧
        (∀ h, leaves = [h] → r = h) ∧
        (2 ≤ leaves.length → ∃ k, 2 ^ k < leaves.length ∧ leaves.length ≤ 2 * 2 ^ k ∧
          r = TreeHash.levels node d k (leaves.take (2 * 2 ^ k - leaves.length) ++
            (TreeHash.pairs (leaves.drop (2 * 2 ^ k - leaves.length))).map node))) ∧
    (Function.Injective node → ∀ xs ys : List δ, xs.length = ys.length → 1 ≤ xs.length →
      xs.length * TreeHash.hashSize ≤ 2 ^ 64 →
      TreeHash.treeHash node xs = TreeHash.treeHash node ys → xs = ys) ∧
    (∀ (env : Env) (cn : Blob → Hash) (b₁ b₂ : Block), env.HashesWith cn →
      (Archive.block.write b₁).ok = true → (Archive.block.write b₂).ok = true →
      CollisionFree env cn b₁ b₂ → getBlockHash env b₁ = getBlockHash env b₂ →
      treeLeaves env b₁ = treeLeaves env b₂) := by
  refine ⟨?_, ?_, ?_⟩
  · intro leaves hpos hfits
    refine ⟨_, TreeHash.treeHash_eq_root node d hpos hfits, ?_, TreeHash.root_shape node d⟩
    rintro h rfl
    rfl
  · intro hinj xs ys hlen hpos hfits h
    rw [TreeHash.treeHash_eq_root node d hpos hfits,
      TreeHash.treeHash_eq_root node d (hlen ▸ hpos) (hlen ▸ hfits)] at h
    exact TreeHash.eq_of_root_eq (Function.Injective.injOn hinj) hlen hpos
      (fun p _ => Set.mem_univ p) (fun p _ => Set.mem_univ p) (Option.some.inj h)
  · intro env cn b₁ b₂ hcn h₁ h₂ hfree hid
    obtain ⟨-, hinits, hhashes⟩ := same_but_signatures hcn h₁ h₂ hfree hid
    unfold treeLeaves getTransactionHash
    rw [hinits, hhashes]

/-- Leaves that are numbers, paired by an injective function. -/
theorem tree_hash_is_merkle_root_pairing :
    TreeHash.treeHash (fun p : ℕ × ℕ => Nat.pair p.1 p.2) [0, 1, 2, 3, 4] ≠
      TreeHash.treeHash (fun p : ℕ × ℕ => Nat.pair p.1 p.2) [0, 1, 2, 4, 3] := by
  have hinj : Function.Injective fun p : ℕ × ℕ => Nat.pair p.1 p.2 := by
    rintro ⟨a, b⟩ ⟨a', b'⟩ h
    obtain ⟨ha, hb⟩ := Nat.pair_eq_pair.1 h
    exact Prod.ext ha hb
  intro h
  have hsame := (tree_hash_is_merkle_root (fun p : ℕ × ℕ => Nat.pair p.1 p.2) 0).2.1 hinj
    [0, 1, 2, 3, 4] [0, 1, 2, 4, 3] rfl (by decide) (by decide) h
  exact absurd hsame (by decide)

end DarknetSpace
