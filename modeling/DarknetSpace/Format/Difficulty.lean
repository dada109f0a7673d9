import DarknetSpace.Format.Money
import DarknetSpace.Format.IntUtil
import Mathlib.Data.List.GetD
import Mathlib.Algebra.Order.Floor.Div

/-!
# Targets and retargeting (`difficulty.cpp`)

A hash meets a difficulty when their product stays below `2 ^ 256`. For a
difficulty that fits in a word the product is a chain of carries over the four
words of the hash. For a wider one the source means to put the hash together in
512 bits and compare, but the shift between two words is not assigned and the
comparison is the wrong way round: no hash meets such a difficulty.

`next_difficulty` and the `next_difficulty_old` it replaced compute one formula,
in 256 and in 64 bits.

Main results: `check_hash_exact`, for every hash and difficulty; and
`next_difficulty_formula`, for every window, with what the two versions do where their
words are too small.
-/

namespace DarknetSpace

open Words

/-! ## `check_hash` -/

/-- A word of a hash, the lowest first. -/
def hashWord (hash : Hash) (i : Nat) : UInt64 := UInt64.ofNat (hash.toNat / 2 ^ (64 * i))

/-- The 64-bit path of `check_hash`, and all of `check_hash_old`. -/
def checkHashWords (hash : Hash) (difficulty : UInt64) : Bool :=
  -- the highest word first, which will most likely fail for a random hash
  let top := mul128 (hashWord hash 3) difficulty
  if top.2 ≠ 0 then false
  else
    let p₀ := mul128 (hashWord hash 0) difficulty
    let p₁ := mul128 (hashWord hash 1) difficulty
    let carry := cadd p₀.2 p₁.1
    let p₂ := mul128 (hashWord hash 2) difficulty
    let carry := cadc p₁.2 p₂.1 carry
    let carry := cadc p₂.2 top.1 carry
    !carry

def checkHashOld (hash : Hash) (difficulty : UInt64) : Bool := checkHashWords hash difficulty

/-- The wide path: the words go into one another, since what `hashVal << 64`
comes to is not kept. -/
def wideHashVal (hash : Hash) : BitVec 512 :=
  [1, 2, 3].foldl (fun hashVal i => hashVal ||| BitVec.ofNat 512 (hashWord hash (3 - i)).toNat) 0#512

def checkHash (hash : Hash) (difficulty : BitVec 128) : Bool :=
  if difficulty.toNat < 2 ^ 64 - 1 then checkHashWords hash (UInt64.ofNat difficulty.toNat)
  -- fast check
  else if 0 < hashWord hash 3 then false
  -- usual slow check
  else decide (2 ^ 256 - 1 < (wideHashVal hash * difficulty.setWidth 512).toNat)

theorem hashWord_toNat (hash : Hash) (i : Nat) :
    (hashWord hash i).toNat = hash.toNat / 2 ^ (64 * i) % 2 ^ 64 :=
  UInt64.toNat_ofNat'

theorem hash_toNat_eq (hash : Hash) :
    hash.toNat = (hashWord hash 0).toNat + 2 ^ 64 * (hashWord hash 1).toNat +
      2 ^ 128 * (hashWord hash 2).toNat + 2 ^ 192 * (hashWord hash 3).toNat := by
  have hlt := hash.isLt
  simp only [hashWord_toNat]
  omega

/-- The chain of carries decides the target. -/
theorem checkHashWords_iff (hash : Hash) (difficulty : UInt64) :
    checkHashWords hash difficulty = true ↔ hash.toNat * difficulty.toNat < 2 ^ 256 := by
  have hword : ∀ i, two (mul128 (hashWord hash i) difficulty).1
      (mul128 (hashWord hash i) difficulty).2 = (hashWord hash i).toNat * difficulty.toNat :=
    fun i => mulWide_eq (hashWord hash i) difficulty
  have hproduct : hash.toNat * difficulty.toNat =
      (hashWord hash 0).toNat * difficulty.toNat +
      2 ^ 64 * ((hashWord hash 1).toNat * difficulty.toNat) +
      2 ^ 128 * ((hashWord hash 2).toNat * difficulty.toNat) +
      2 ^ 192 * ((hashWord hash 3).toNat * difficulty.toNat) := by
    rw [hash_toNat_eq hash]
    ring
  rw [hproduct, ← hword, ← hword, ← hword, ← hword]
  unfold checkHashWords
  simp only
  generalize mul128 (hashWord hash 0) difficulty = p₀
  generalize mul128 (hashWord hash 1) difficulty = p₁
  generalize mul128 (hashWord hash 2) difficulty = p₂
  generalize mul128 (hashWord hash 3) difficulty = top
  by_cases hhigh : top.2 ≠ 0
  · rw [if_pos hhigh]
    -- the top word alone is past the target
    have hpos : top.2.toNat ≠ 0 := fun hzero => hhigh (UInt64.toNat_inj.1 hzero)
    unfold two
    simp only [Bool.false_eq_true, false_iff]
    omega
  · have hzero : top.2.toNat = 0 := by rw [not_not.1 hhigh]; rfl
    have htop : two top.1 top.2 = top.1.toNat := by
      unfold two
      rw [hzero, Nat.mul_zero, Nat.add_zero]
    rw [if_neg hhigh, Bool.not_eq_true', ← Bool.not_eq_true, chain_carry p₀.1, htop, Nat.not_le]

/-- Past one word nothing passes: the product is short of 256 bits. -/
theorem checkHash_wide (hash : Hash) {difficulty : BitVec 128}
    (h : 2 ^ 64 - 1 ≤ difficulty.toNat) : checkHash hash difficulty = false := by
  have hdifficulty := difficulty.isLt
  have hval : (wideHashVal hash).toNat < 2 ^ 64 := by
    have hw : ∀ i, (BitVec.ofNat 512 (hashWord hash i).toNat).toNat < 2 ^ 64 := by
      intro i
      rw [BitVec.toNat_ofNat]
      exact Nat.lt_of_le_of_lt (Nat.mod_le _ _) (hashWord hash i).toNat_lt
    have hzero : (0#512).toNat < 2 ^ 64 := by
      rw [BitVec.toNat_zero]
      exact Nat.two_pow_pos 64
    unfold wideHashVal
    simp only [List.foldl_cons, List.foldl_nil, BitVec.toNat_or]
    exact Nat.or_lt_two_pow (Nat.or_lt_two_pow (Nat.or_lt_two_pow hzero (hw 2)) (hw 1)) (hw 0)
  have hproduct : (wideHashVal hash * difficulty.setWidth 512).toNat < 2 ^ 192 :=
    calc (wideHashVal hash * difficulty.setWidth 512).toNat
        ≤ (wideHashVal hash).toNat * difficulty.toNat := by
          rw [BitVec.toNat_mul, BitVec.toNat_setWidth]
          exact (Nat.mod_le _ _).trans (Nat.mul_le_mul_left _ (Nat.mod_le _ _))
      _ < 2 ^ 64 * 2 ^ 128 := Nat.mul_lt_mul'' hval hdifficulty
      _ = 2 ^ 192 := by decide
  unfold checkHash
  rw [if_neg (by omega)]
  by_cases hfast : 0 < hashWord hash 3
  · rw [if_pos hfast]
  · rw [if_neg hfast]
    exact decide_eq_false (by omega)

theorem checkHash_narrow (hash : Hash) {difficulty : BitVec 128}
    (h : difficulty.toNat < 2 ^ 64 - 1) :
    checkHash hash difficulty = true ↔ hash.toNat * difficulty.toNat < 2 ^ 256 := by
  unfold checkHash
  rw [if_pos h, checkHashWords_iff, UInt64.toNat_ofNat_of_lt' (show _ < 2 ^ 64 by omega)]

/-- The target is decided exactly for every difficulty below the largest word,
and beyond it for the hashes that miss. Raising the difficulty never lets a hash
in, and `check_hash_old` agrees under the same condition. -/
theorem check_hash_exact (hash : Hash) :
    (∀ difficulty : BitVec 128,
      ((checkHash hash difficulty = true ↔ hash.toNat * difficulty.toNat < 2 ^ 256) ↔
        (difficulty.toNat < 2 ^ 64 - 1 ∨ 2 ^ 256 ≤ hash.toNat * difficulty.toNat))) ∧
    (∀ d d' : BitVec 128, d ≤ d' → checkHash hash d' = true → checkHash hash d = true) ∧
    (∀ difficulty : UInt64,
      (checkHash hash (BitVec.ofNat 128 difficulty.toNat) = checkHashOld hash difficulty ↔
        (difficulty.toNat < 2 ^ 64 - 1 ∨ 2 ^ 256 ≤ hash.toNat * difficulty.toNat))) := by
  refine ⟨?_, ?_, ?_⟩
  · intro difficulty
    by_cases hnarrow : difficulty.toNat < 2 ^ 64 - 1
    · exact ⟨fun _ => .inl hnarrow, fun _ => checkHash_narrow hash hnarrow⟩
    · rw [checkHash_wide hash (Nat.not_lt.1 hnarrow), ← Nat.not_lt]
      simp only [Bool.false_eq_true, false_iff, hnarrow, false_or]
  · intro d d' hle hpass
    have hle' : d.toNat ≤ d'.toNat := hle
    by_cases hnarrow : d'.toNat < 2 ^ 64 - 1
    · rw [checkHash_narrow hash hnarrow] at hpass
      rw [checkHash_narrow hash (by omega)]
      exact Nat.lt_of_le_of_lt (Nat.mul_le_mul_left _ hle') hpass
    · rw [checkHash_wide hash (Nat.not_lt.1 hnarrow)] at hpass
      cases hpass
  · intro difficulty
    have hlt := difficulty.toNat_lt
    have hwide : (BitVec.ofNat 128 difficulty.toNat).toNat = difficulty.toNat := by
      rw [BitVec.toNat_ofNat, Nat.mod_eq_of_lt (by omega)]
    have hold : checkHashOld hash difficulty = true ↔ hash.toNat * difficulty.toNat < 2 ^ 256 :=
      checkHashWords_iff hash difficulty
    rw [Bool.eq_iff_iff, hold]
    by_cases hnarrow : difficulty.toNat < 2 ^ 64 - 1
    · rw [checkHash_narrow hash (by omega), hwide]
      exact ⟨fun _ => .inl hnarrow, fun _ => Iff.rfl⟩
    · rw [checkHash_wide hash (by omega), ← Nat.not_lt]
      simp only [Bool.false_eq_true, false_iff, hnarrow, false_or]

/-- The easiest hash there is, at the first difficulty beyond a word. -/
theorem check_hash_refuses_wide :
    ¬ (checkHash 1 (2 ^ 64) = true ↔ (1 : Hash).toNat * (2 ^ 64 : BitVec 128).toNat < 2 ^ 256) := by
  decide +kernel

/-! ## `next_difficulty` -/

/-- `DIFFICULTY_WINDOW - 2 * DIFFICULTY_CUT`. -/
def difficultyKept : Nat := difficultyWindow - 2 * difficultyCut

def cutBegin (length : Nat) : Nat :=
  if length ≤ difficultyKept then 0 else (length - difficultyKept + 1) / 2

def cutEnd (length : Nat) : Nat :=
  if length ≤ difficultyKept then length else cutBegin length + difficultyKept

/-- The first `DIFFICULTY_WINDOW` timestamps, sorted. -/
def keptTimes (timestamps : List UInt64) : List UInt64 :=
  (timestamps.take difficultyWindow).insertionSort (· ≤ ·)

/-- `timestamps[cut_end - 1] - timestamps[cut_begin]`, one at least. -/
def timeSpan (timestamps : List UInt64) : UInt64 :=
  let length := (timestamps.take difficultyWindow).length
  let span := (keptTimes timestamps).getD (cutEnd length - 1) 0 -
    (keptTimes timestamps).getD (cutBegin length) 0
  if span = 0 then 1 else span

/-- `next_difficulty` for any target; 0 is the source's overflow value. The
sum in `uint256_t` is exact. -/
def nextDifficultyFor (timestamps : List UInt64) (cumulativeDifficulties : List Nat)
    (targetSeconds : UInt64) : Nat :=
  let length := (timestamps.take difficultyWindow).length
  if length ≤ 1 then 1
  else
    let cumulativeDifficulties := cumulativeDifficulties.take difficultyWindow
    let totalWork := sub128 (cumulativeDifficulties.getD (cutEnd length - 1) 0)
      (cumulativeDifficulties.getD (cutBegin length) 0)
    let span := (timeSpan timestamps).toNat
    let res := (totalWork * targetSeconds.toNat + span - 1) / span
    if 2 ^ 128 - 1 < res then 0 else res

/-- `next_difficulty_old`. -/
def nextDifficultyOld (timestamps : List UInt64) (cumulativeDifficulties : List UInt64)
    (targetSeconds : UInt64) : UInt64 :=
  let length := (timestamps.take difficultyWindow).length
  if length ≤ 1 then 1
  else
    let cumulativeDifficulties := cumulativeDifficulties.take difficultyWindow
    let totalWork := cumulativeDifficulties.getD (cutEnd length - 1) 0 -
      cumulativeDifficulties.getD (cutBegin length) 0
    let span := timeSpan timestamps
    let product := mul128 totalWork targetSeconds
    if product.2 ≠ 0 ∨ product.1 + span - 1 < product.1 then 0
    else (product.1 + span - 1) / span

/-- The chain's own retarget is the one with `DIFFICULTY_TARGET`. -/
theorem nextDifficulty_eq (timestamps : List UInt64) (cumulativeDifficulties : List Nat) :
    nextDifficulty timestamps cumulativeDifficulties =
      nextDifficultyFor timestamps cumulativeDifficulties (UInt64.ofNat difficultyTarget) := by
  have hspan : ∀ span : UInt64, (if span.toNat = 0 then 1 else span.toNat) =
      (if span = 0 then (1 : UInt64) else span).toNat := by
    intro span
    by_cases hzero : span = 0
    · rw [if_pos hzero, hzero]
      rfl
    · have hpos : span.toNat ≠ 0 := fun hnat => hzero (UInt64.toNat_inj.1 hnat)
      rw [if_neg hzero, if_neg hpos]
  unfold nextDifficulty nextDifficultyFor timeSpan
  simp only [hspan]
  rfl

/-- At least two blocks stay inside the cuts, at most `difficultyKept`, and as
many go on one side as on the other, give or take one. -/
theorem cut_bounds {length : Nat} (h : 1 < length) :
    cutBegin length + 2 ≤ cutEnd length ∧ cutEnd length ≤ length ∧
      cutEnd length - cutBegin length ≤ 600 ∧ length - cutEnd length ≤ cutBegin length ∧
      cutBegin length ≤ length - cutEnd length + 1 := by
  have hkept : difficultyKept = 600 := rfl
  unfold cutEnd cutBegin
  rw [hkept]
  by_cases hle : length ≤ 600
  · rw [if_pos hle, if_pos hle]
    omega
  · rw [if_neg hle, if_neg hle]
    omega

/-- The time between the two ends of the sorted timestamps. -/
theorem timeSpan_toNat {timestamps : List UInt64}
    (h : 1 < (timestamps.take difficultyWindow).length) :
    (timeSpan timestamps).toNat =
      max 1 (((keptTimes timestamps).getD
          (cutEnd (timestamps.take difficultyWindow).length - 1) 0).toNat -
        ((keptTimes timestamps).getD (cutBegin (timestamps.take difficultyWindow).length) 0).toNat) := by
  obtain ⟨hbe, hel, -, -, -⟩ := cut_bounds h
  have hlen : (keptTimes timestamps).length = (timestamps.take difficultyWindow).length :=
    List.length_insertionSort ..
  unfold timeSpan
  simp only
  generalize (timestamps.take difficultyWindow).length = n at *
  have hb : cutBegin n < (keptTimes timestamps).length := by omega
  have he : cutEnd n - 1 < (keptTimes timestamps).length := by omega
  have hsorted : (keptTimes timestamps)[cutBegin n] ≤ (keptTimes timestamps)[cutEnd n - 1] :=
    List.pairwise_iff_getElem.1 (List.pairwise_insertionSort (· ≤ ·) _) _ _ hb he (by omega)
  rw [List.getD_eq_getElem _ _ hb, List.getD_eq_getElem _ _ he]
  have hsub := UInt64.toNat_sub_of_le _ _ hsorted
  generalize (keptTimes timestamps)[cutEnd n - 1] - (keptTimes timestamps)[cutBegin n] = span at hsub
  rw [← hsub]
  by_cases hzero : span = 0
  · rw [if_pos hzero, hzero]
    rfl
  · have hpos : span.toNat ≠ 0 := fun hnat => hzero (UInt64.toNat_inj.1 hnat)
    rw [if_neg hzero]
    omega

/-- Cumulative difficulties that rise: the work between two of them is their
difference, and is not zero. -/
theorem work_of_rising {cumulativeDifficulties : List Nat} {b e : Nat}
    (hlt : ∀ d ∈ cumulativeDifficulties, d < 2 ^ 128)
    (hrising : cumulativeDifficulties.Pairwise (· < ·)) (hbe : b < e)
    (he : e < cumulativeDifficulties.length) :
    sub128 (cumulativeDifficulties.getD e 0) (cumulativeDifficulties.getD b 0) =
        cumulativeDifficulties.getD e 0 - cumulativeDifficulties.getD b 0 ∧
      cumulativeDifficulties.getD b 0 < cumulativeDifficulties.getD e 0 := by
  have hb : b < cumulativeDifficulties.length := by omega
  rw [List.getD_eq_getElem _ _ he, List.getD_eq_getElem _ _ hb]
  have hless := List.pairwise_iff_getElem.1 hrising b e hb he hbe
  have hfit := hlt _ (List.getElem_mem he)
  refine ⟨?_, hless⟩
  unfold sub128
  omega

theorem keptTimes_perm {timestamps timestamps' : List UInt64}
    (h : (timestamps'.take difficultyWindow).Perm (timestamps.take difficultyWindow)) :
    keptTimes timestamps' = keptTimes timestamps := by
  unfold keptTimes
  refine List.Perm.eq_of_pairwise (fun a b _ _ => UInt64.le_antisymm)
    (List.pairwise_insertionSort (· ≤ ·) _) (List.pairwise_insertionSort (· ≤ ·) _) ?_
  exact ((List.perm_insertionSort _ _).trans h).trans (List.perm_insertionSort _ _).symm

/-- The retarget: the work at the target's pace, over the time it took, rounded
up. -/
def retarget (work target span : Nat) : Nat := work * target ⌈/⌉ max 1 span

section

variable {timestamps : List UInt64} {cumulativeDifficulties : List Nat} {targetSeconds : UInt64}

/-- What the retarget of a window is made of. -/
structure Window (timestamps : List UInt64) (cumulativeDifficulties : List Nat)
    (work span : Nat) : Prop where
  work_eq : work = (cumulativeDifficulties.take difficultyWindow).getD
      (cutEnd (timestamps.take difficultyWindow).length - 1) 0 -
    (cumulativeDifficulties.take difficultyWindow).getD
      (cutBegin (timestamps.take difficultyWindow).length) 0
  work_pos : 0 < work
  span_eq : span =
    ((keptTimes timestamps).getD (cutEnd (timestamps.take difficultyWindow).length - 1) 0).toNat -
    ((keptTimes timestamps).getD (cutBegin (timestamps.take difficultyWindow).length) 0).toNat

/-- The source's sum, in whatever width has room for it. -/
theorem retarget_eq (work target span : Nat) :
    (work * target + max 1 span - 1) / max 1 span = retarget work target span :=
  (Nat.ceilDiv_eq_add_pred_div _ _).symm

theorem retarget_pos {work target span : Nat} (hwork : 0 < work) :
    retarget work target span = 0 ↔ target = 0 := by
  have hspan : 0 < max 1 span := by omega
  rw [← retarget_eq, Nat.div_eq_zero_iff]
  constructor
  · rintro (hzero | hlt)
    · omega
    · by_contra htarget
      have := Nat.mul_pos hwork (Nat.pos_of_ne_zero htarget)
      omega
  · rintro rfl
    omega

theorem nextDifficultyFor_eq (hlen : timestamps.length = cumulativeDifficulties.length)
    (hlt : ∀ d ∈ cumulativeDifficulties, d < 2 ^ 128)
    (hrising : cumulativeDifficulties.Pairwise (· < ·)) (hmany : 1 < timestamps.length) :
    ∃ work span, Window timestamps cumulativeDifficulties work span ∧
      (∀ targetSeconds, nextDifficultyFor timestamps cumulativeDifficulties targetSeconds =
        if retarget work targetSeconds.toNat span < 2 ^ 128 then
          retarget work targetSeconds.toNat span
        else 0) := by
  have hkept : (timestamps.take difficultyWindow).length =
      (cumulativeDifficulties.take difficultyWindow).length := by
    rw [List.length_take, List.length_take, hlen]
  have hmany' : 1 < (timestamps.take difficultyWindow).length := by
    have hwindow : difficultyWindow = 720 := rfl
    rw [List.length_take]
    omega
  obtain ⟨hbe, hel, -, -, -⟩ := cut_bounds hmany'
  obtain ⟨hsub, hless⟩ := @work_of_rising (cumulativeDifficulties.take difficultyWindow)
    (cutBegin (timestamps.take difficultyWindow).length)
    (cutEnd (timestamps.take difficultyWindow).length - 1)
    (fun d hd => hlt d (List.mem_of_mem_take hd)) (hrising.sublist (List.take_sublist _ _))
    (by omega) (by omega)
  have hspan := timeSpan_toNat hmany'
  refine ⟨_, _, ⟨rfl, Nat.sub_pos_of_lt hless, rfl⟩, ?_⟩
  intro targetSeconds
  unfold nextDifficultyFor
  simp only
  rw [if_neg (Nat.not_le.2 hmany'), hsub, hspan, retarget_eq]
  generalize retarget _ _ _ = res
  by_cases hfits : res < 2 ^ 128
  · rw [if_pos hfits, if_neg (by omega)]
  · rw [if_neg hfits, if_pos (by omega)]

/-- In 64 bits: the same value, where the product and the sum have room. -/
theorem nextDifficultyOld_eq {cumulativeDifficulties : List UInt64}
    (hlen : timestamps.length = cumulativeDifficulties.length)
    (hrising : (cumulativeDifficulties.map UInt64.toNat).Pairwise (· < ·))
    (hnonzero : nextDifficultyOld timestamps cumulativeDifficulties targetSeconds ≠ 0) :
    nextDifficultyFor timestamps (cumulativeDifficulties.map UInt64.toNat) targetSeconds =
      (nextDifficultyOld timestamps cumulativeDifficulties targetSeconds).toNat := by
  by_cases hmany : 1 < timestamps.length
  · have hlen' : timestamps.length = (cumulativeDifficulties.map UInt64.toNat).length := by
      rw [List.length_map, hlen]
    obtain ⟨work, span, hwindow, hfor⟩ := nextDifficultyFor_eq hlen' (by
      intro d hd
      obtain ⟨d, -, rfl⟩ := List.mem_map.1 hd
      have := d.toNat_lt
      omega) hrising hmany
    have hmany' : 1 < (timestamps.take difficultyWindow).length := by
      have hw : difficultyWindow = 720 := rfl
      rw [List.length_take]
      omega
    have hspan := timeSpan_toNat hmany'
    rw [← hwindow.span_eq] at hspan
    have hget : ∀ i, ((cumulativeDifficulties.map UInt64.toNat).take difficultyWindow).getD i 0 =
        ((cumulativeDifficulties.take difficultyWindow).getD i 0).toNat := by
      intro i
      rw [← List.map_take, List.getD, List.getElem?_map, List.getD]
      cases (cumulativeDifficulties.take difficultyWindow)[i]? with
      | none => rfl
      | some d => rfl
    have hworkEq := hwindow.work_eq
    have hpos := hwindow.work_pos
    rw [hget, hget] at hworkEq
    rw [hfor]
    unfold nextDifficultyOld at hnonzero ⊢
    simp only at hnonzero ⊢
    rw [if_neg (Nat.not_le.2 hmany')] at hnonzero ⊢
    have hwork := UInt64.toNat_sub_of_le _ _ (UInt64.le_iff_toNat_le.2
      (show ((cumulativeDifficulties.take difficultyWindow).getD (cutBegin
          (timestamps.take difficultyWindow).length) 0).toNat ≤
        ((cumulativeDifficulties.take difficultyWindow).getD (cutEnd
          (timestamps.take difficultyWindow).length - 1) 0).toNat by omega))
    rw [← hworkEq] at hwork
    generalize (cumulativeDifficulties.take difficultyWindow).getD (cutEnd _ - 1) 0 -
      (cumulativeDifficulties.take difficultyWindow).getD (cutBegin _) 0 = totalWork at *
    have hproduct := mulWide_eq totalWork targetSeconds
    change two (mul128 totalWork targetSeconds).1 (mul128 totalWork targetSeconds).2 = _ at hproduct
    generalize mul128 totalWork targetSeconds = product at *
    by_cases hover : product.2 ≠ 0 ∨ product.1 + timeSpan timestamps - 1 < product.1
    · rw [if_pos hover] at hnonzero
      exact absurd rfl hnonzero
    · rw [if_neg hover]
      rw [not_or, not_not] at hover
      obtain ⟨hhigh, hlow⟩ := hover
      have hexact : product.1.toNat = work * targetSeconds.toNat := by
        rw [← hwork, ← hproduct, hhigh]
        rfl
      -- without an overflow the sum is the exact one
      have hspanLt := (timeSpan timestamps).toNat_lt
      have hlowLt := product.1.toNat_lt
      have hsum : (product.1 + timeSpan timestamps - 1).toNat =
          work * targetSeconds.toNat + max 1 span - 1 := by
        rw [UInt64.lt_iff_toNat_lt] at hlow
        rw [← hexact, ← hspan]
        have hone : (1 : UInt64).toNat = 1 := rfl
        rw [UInt64.toNat_sub, UInt64.toNat_add, hone] at hlow ⊢
        omega
      rw [UInt64.toNat_div, hsum, hspan, retarget_eq, if_pos]
      rw [← retarget_eq, ← hsum]
      exact Nat.lt_of_le_of_lt (Nat.div_le_self _ _)
        (Nat.lt_trans (UInt64.toNat_lt _) (by decide))
  · have hfew : (timestamps.take difficultyWindow).length ≤ 1 := by
      rw [List.length_take]
      omega
    unfold nextDifficultyFor nextDifficultyOld
    rw [if_pos hfew, if_pos hfew]
    rfl

end

/-- `next_difficulty` is the retarget of a window between two cuts: 1 with one
entry at most, 0 when the retarget has no room in 128 bits (or asks for no time
at all), the same for every order of the timestamps in the window, and what
`next_difficulty_old` came to wherever that had room in 64 bits. -/
theorem next_difficulty_formula (timestamps : List UInt64) (cumulativeDifficulties : List Nat)
    (targetSeconds : UInt64) (hlen : timestamps.length = cumulativeDifficulties.length)
    (hlt : ∀ d ∈ cumulativeDifficulties, d < 2 ^ 128)
    (hrising : cumulativeDifficulties.Pairwise (· < ·)) :
    (timestamps.length ≤ 1 →
      nextDifficultyFor timestamps cumulativeDifficulties targetSeconds = 1) ∧
    (1 < timestamps.length →
      let length := min difficultyWindow timestamps.length
      (cutBegin length + 2 ≤ cutEnd length ∧ cutEnd length ≤ length ∧
        cutEnd length - cutBegin length ≤ 600 ∧ length - cutEnd length ≤ cutBegin length ∧
        cutBegin length ≤ length - cutEnd length + 1) ∧
      let work := (cumulativeDifficulties.take difficultyWindow).getD (cutEnd length - 1) 0 -
        (cumulativeDifficulties.take difficultyWindow).getD (cutBegin length) 0
      let span := ((keptTimes timestamps).getD (cutEnd length - 1) 0).toNat -
        ((keptTimes timestamps).getD (cutBegin length) 0).toNat
      let res := work * targetSeconds.toNat ⌈/⌉ max 1 span
      nextDifficultyFor timestamps cumulativeDifficulties targetSeconds =
          (if res < 2 ^ 128 then res else 0) ∧
        (nextDifficultyFor timestamps cumulativeDifficulties targetSeconds = 0 ↔
          2 ^ 128 ≤ res ∨ targetSeconds = 0)) ∧
    (∀ timestamps', (timestamps'.take difficultyWindow).Perm (timestamps.take difficultyWindow) →
      nextDifficultyFor timestamps' cumulativeDifficulties targetSeconds =
        nextDifficultyFor timestamps cumulativeDifficulties targetSeconds) ∧
    ((∀ d ∈ cumulativeDifficulties, d < 2 ^ 64) →
      nextDifficultyOld timestamps (cumulativeDifficulties.map UInt64.ofNat) targetSeconds ≠ 0 →
      nextDifficultyFor timestamps cumulativeDifficulties targetSeconds =
        (nextDifficultyOld timestamps (cumulativeDifficulties.map UInt64.ofNat)
          targetSeconds).toNat) := by
  refine ⟨?_, ?_, ?_, ?_⟩
  · intro hfew
    unfold nextDifficultyFor
    rw [if_pos (show (timestamps.take difficultyWindow).length ≤ 1 by
      rw [List.length_take]
      omega)]
  · intro hmany
    obtain ⟨work, span, hwindow, hfor⟩ := nextDifficultyFor_eq hlen hlt hrising hmany
    obtain ⟨hwork, hpos, hspan⟩ := hwindow
    have hlength : (timestamps.take difficultyWindow).length =
        min difficultyWindow timestamps.length := List.length_take
    rw [hlength] at hwork hspan
    refine ⟨cut_bounds ?_, ?_, ?_⟩
    · have hw : difficultyWindow = 720 := rfl
      omega
    · rw [← hwork, ← hspan]
      exact hfor targetSeconds
    · rw [← hwork, ← hspan, hfor targetSeconds]
      -- the formula itself is zero only at target zero; every other zero is a value that does not
      -- fit
      have hzero : retarget work targetSeconds.toNat span = 0 ↔ targetSeconds = 0 := by
        rw [retarget_pos hpos]
        exact UInt64.toNat_inj (b := 0)
      change (if retarget work targetSeconds.toNat span < 2 ^ 128 then _ else 0) = 0 ↔
        2 ^ 128 ≤ retarget work targetSeconds.toNat span ∨ _
      rw [← hzero]
      generalize retarget work targetSeconds.toNat span = res
      by_cases hfits : res < 2 ^ 128
      · rw [if_pos hfits]
        omega
      · rw [if_neg hfits]
        exact ⟨fun _ => .inl (Nat.not_lt.1 hfits), fun _ => rfl⟩
  · intro timestamps' hperm
    -- the times are sorted before anything is read off them
    have htimes := keptTimes_perm hperm
    have hsame := hperm.length_eq
    unfold nextDifficultyFor timeSpan
    simp only [hsame, htimes]
  · intro hfits hnonzero
    have hback : (cumulativeDifficulties.map UInt64.ofNat).map UInt64.toNat =
        cumulativeDifficulties := by
      rw [List.map_map]
      conv_rhs => rw [← List.map_id cumulativeDifficulties]
      exact List.map_congr_left fun d hd => UInt64.toNat_ofNat_of_lt' (hfits d hd)
    have hold := @nextDifficultyOld_eq timestamps targetSeconds
      (cumulativeDifficulties.map UInt64.ofNat)
      (by rw [List.length_map, hlen]) (by rw [hback]; exact hrising) hnonzero
    rw [hback] at hold
    exact hold

/-- Three blocks out of order. -/
theorem next_difficulty_formula_three :
    nextDifficultyFor [0, 120, 60] [1, 4, 9] 60 = 4 ∧
      nextDifficultyOld [0, 120, 60] ([1, 4, 9].map UInt64.ofNat) 60 = 4 := by
  have hold : nextDifficultyOld [0, 120, 60] ([1, 4, 9].map UInt64.ofNat) 60 = 4 := by
    decide
  obtain ⟨-, -, -, hsame⟩ := next_difficulty_formula [0, 120, 60] [1, 4, 9] 60 rfl (by decide)
    (by decide)
  refine ⟨?_, hold⟩
  rw [hsame (by decide) (by rw [hold]; decide), hold]
  rfl

end DarknetSpace
