import DarknetSpace.Core.MaxUsed
import DarknetSpace.Wallet.Rings

/-!
# Offsets there and back (`currency_format_utils.cpp`)

The outputs of a ring are written as differences: the indexes are sorted, and
from the last one down each loses the one before it. The way back adds from the
first one up. What was built from indexes leads back to them. A list from the
network need not: its sums may wrap in `uint64_t`, and each index then still
falls below the number of outputs there are.

Both loops work in place on a vector, which is the first section: what an index holds
when the loop has passed it. Sorting comes before on the one way only.

Main result: `output_offsets_lossless_iff`. Indexes always come back sorted. Offsets
lead to ascending indexes, and come back from them, exactly if no sum wraps (`SumsFit`).
-/

namespace DarknetSpace

/-! ## In place -/

/-- `for(size_t i = 1; i < res.size(); i++) res[i] += res[i-1];`, so many steps
from `i` on. -/
def addForwards : (steps i : Nat) → List UInt64 → List UInt64
  | 0, _, res => res
  | steps + 1, i, res => addForwards steps (i + 1) (res.set i (res.getD i 0 + res.getD (i - 1) 0))

/-- `for(size_t i = res.size()-1; i != 0; i--) res[i] -= res[i-1];` from `i`
down. -/
def subtractBackwards : (i : Nat) → List UInt64 → List UInt64
  | 0, res => res
  | i + 1, res => subtractBackwards i (res.set (i + 1) (res.getD (i + 1) 0 - res.getD i 0))

theorem addForwards_eq (before : List UInt64) (base : UInt64) (rest : List UInt64) :
    addForwards rest.length (before.length + 1) (before ++ base :: rest) =
      before ++ base :: relativeOutputOffsetsToAbsolute.go base rest := by
  induction rest generalizing before base with
  | nil => rfl
  | cons o rest ih =>
    have hread : (before ++ base :: o :: rest).getD (before.length + 1) 0 = o := by
      rw [List.getD, List.getElem?_append_right (by omega)]
      simp
    have hprev : (before ++ base :: o :: rest).getD before.length 0 = base := by
      rw [List.getD, List.getElem?_append_right (Nat.le_refl _)]
      simp
    have hset : (before ++ base :: o :: rest).set (before.length + 1) (base + o) =
        (before ++ [base]) ++ (base + o) :: rest := by
      rw [List.set_append_right _ _ (by omega)]
      simp
    rw [List.length_cons]
    unfold addForwards relativeOutputOffsetsToAbsolute.go
    rw [Nat.add_sub_cancel, hread, hprev, UInt64.add_comm o base, hset]
    have hnext := ih (before ++ [base]) (base + o)
    rw [List.length_append, List.length_singleton] at hnext
    rw [hnext, List.append_assoc]
    rfl

/-- The loop of `relative_output_offsets_to_absolute`. -/
theorem relativeOutputOffsetsToAbsolute_inPlace (off : List UInt64) :
    relativeOutputOffsetsToAbsolute off = addForwards (off.length - 1) 1 off := by
  cases off with
  | nil => rfl
  | cons first rest =>
    have h := addForwards_eq [] first rest
    rw [List.nil_append, List.nil_append] at h
    unfold relativeOutputOffsetsToAbsolute relativeOutputOffsetsToAbsolute.go
    rw [UInt64.zero_add]
    exact h.symm

/-- Behind `i` nothing is touched any more. -/
theorem subtractBackwards_append (first : UInt64) (rest done : List UInt64) :
    subtractBackwards rest.length (first :: rest ++ done) =
      first :: List.zipWith (· - ·) rest (first :: rest) ++ done := by
  induction rest using List.reverseRecOn generalizing done with
  | nil => rfl
  | append_singleton rest last ih =>
    -- the last number and the one before it
    obtain ⟨init, prev, hsplit⟩ : ∃ init prev, first :: rest = init ++ [prev] :=
      ⟨_, _, (List.dropLast_append_getLast (List.cons_ne_nil first rest)).symm⟩
    have hlength : init.length = rest.length := by
      have h := congrArg List.length hsplit
      rw [List.length_cons, List.length_append, List.length_singleton] at h
      omega
    have hwhole : first :: (rest ++ [last]) ++ done = init ++ prev :: last :: done := by
      rw [List.cons_append, List.append_assoc, ← List.cons_append, hsplit, List.append_assoc]
      rfl
    have hlast : (init ++ prev :: last :: done).getD (rest.length + 1) 0 = last := by
      rw [List.getD, List.getElem?_append_right (by omega), hlength]
      simp
    have hprev : (init ++ prev :: last :: done).getD rest.length 0 = prev := by
      rw [List.getD, List.getElem?_append_right (by omega), hlength]
      simp
    have hset : (init ++ prev :: last :: done).set (rest.length + 1) (last - prev) =
        first :: rest ++ (last - prev) :: done := by
      rw [List.set_append_right _ _ (by omega), hlength, hsplit, List.append_assoc]
      simp
    have hzip : List.zipWith (· - ·) (rest ++ [last]) (first :: (rest ++ [last])) =
        List.zipWith (· - ·) rest (first :: rest) ++ [last - prev] := by
      rw [← List.cons_append, hsplit, List.append_assoc, List.zipWith_append hlength.symm]
      have hshort : List.zipWith (· - ·) (rest ++ []) (init ++ [prev]) =
          List.zipWith (· - ·) rest init ++ List.zipWith (· - ·) [] [prev] :=
        List.zipWith_append hlength.symm
      rw [List.append_nil] at hshort
      rw [hshort]
      simp
    rw [List.length_append, List.length_singleton, hwhole]
    unfold subtractBackwards
    rw [hlast, hprev, hset, ih, hzip]
    simp

/-- The loop of `absolute_output_offsets_to_relative`, on what is sorted. -/
theorem absoluteOutputOffsetsToRelative_inPlace (off : List UInt64) :
    absoluteOutputOffsetsToRelative off =
      subtractBackwards (off.length - 1) (off.insertionSort (· ≤ ·)) := by
  have hlength := List.length_insertionSort (· ≤ ·) off
  unfold absoluteOutputOffsetsToRelative
  simp only
  cases hsorted : off.insertionSort (· ≤ ·) with
  | nil =>
    rw [hsorted, List.length_nil] at hlength
    rw [← hlength]
    rfl
  | cons first rest =>
    have h := subtractBackwards_append first rest []
    rw [List.append_nil, List.append_nil] at h
    rw [hsorted, List.length_cons] at hlength
    rw [← hlength, Nat.add_sub_cancel, h]

/-! ## Without a wrap -/

/-- Added up, the offsets stay within `uint64_t`. -/
def SumsFit (off : List UInt64) : Prop := (off.map UInt64.toNat).sum < 2 ^ 64

/-- Indexes that rise were added up without a wrap. -/
theorem sums_fit_of_rising {base : UInt64} {off : List UInt64}
    (h : (base :: relativeOutputOffsetsToAbsolute.go base off).Pairwise (· ≤ ·)) :
    base.toNat + (off.map UInt64.toNat).sum < 2 ^ 64 := by
  induction off generalizing base with
  | nil =>
    have := base.toNat_lt
    rw [List.map_nil, List.sum_nil]
    omega
  | cons o rest ih =>
    unfold relativeOutputOffsetsToAbsolute.go at h
    obtain ⟨hge, htail⟩ := List.pairwise_cons.1 h
    have hstep := UInt64.le_iff_toNat_le.1 (hge (base + o) List.mem_cons_self)
    have hbase := base.toNat_lt
    have ho := o.toNat_lt
    rw [UInt64.toNat_add] at hstep
    have hadd : (base + o).toNat = base.toNat + o.toNat := by
      rw [UInt64.toNat_add]
      omega
    have hrest := ih htail
    rw [List.map_cons, List.sum_cons]
    omega

/-- The indexes rise exactly as long as no sum wraps. -/
theorem absolute_rising_iff (off : List UInt64) :
    (relativeOutputOffsetsToAbsolute off).Pairwise (· ≤ ·) ↔ SumsFit off := by
  have hzero : (0 : UInt64).toNat = 0 := UInt64.toNat_zero
  constructor
  · intro h
    have hrising : (0 :: relativeOutputOffsetsToAbsolute.go 0 off).Pairwise (· ≤ ·) := by
      refine List.pairwise_cons.2 ⟨?_, h⟩
      intro i _
      rw [UInt64.le_iff_toNat_le, hzero]
      exact Nat.zero_le _
    have hsum := sums_fit_of_rising hrising
    rw [hzero, Nat.zero_add] at hsum
    exact hsum
  · intro h
    unfold SumsFit at h
    have hfits : (0 : UInt64).toNat + (off.map UInt64.toNat).sum < 2 ^ 64 := by
      rw [hzero, Nat.zero_add]
      exact h
    exact (absolute_ascending hfits).2.imp UInt64.le_iff_toNat_le.2

/-- The differences of sums are what was added. -/
theorem zipWith_sub_go (base : UInt64) (off : List UInt64) :
    List.zipWith (· - ·) (relativeOutputOffsetsToAbsolute.go base off)
      (base :: relativeOutputOffsetsToAbsolute.go base off) = off := by
  induction off generalizing base with
  | nil => rfl
  | cons o rest ih =>
    unfold relativeOutputOffsetsToAbsolute.go
    rw [List.zipWith_cons_cons, ih, UInt64.add_comm, UInt64.add_sub_cancel]

/-- Rising indexes lead back to the differences they came from. -/
theorem absoluteOutputOffsetsToRelative_absolute {off : List UInt64}
    (h : (relativeOutputOffsetsToAbsolute off).Pairwise (· ≤ ·)) :
    absoluteOutputOffsetsToRelative (relativeOutputOffsetsToAbsolute off) = off := by
  have hsorted := h.insertionSort_eq
  unfold absoluteOutputOffsetsToRelative
  simp only
  rw [hsorted]
  cases off with
  | nil => rfl
  | cons first rest =>
    unfold relativeOutputOffsetsToAbsolute relativeOutputOffsetsToAbsolute.go
    rw [UInt64.zero_add]
    show first :: _ = _
    rw [zipWith_sub_go]

/-- **Offsets are encoded without loss**: indexes come back sorted, with neither
a borrow on the way there nor a wrap on the way back; offsets come back from
their indexes, which rise, exactly as long as their sum fits. -/
theorem output_offsets_lossless_iff (absolute relative : List UInt64) :
    (relativeOutputOffsetsToAbsolute (absoluteOutputOffsetsToRelative absolute) =
        absolute.insertionSort (· ≤ ·) ∧
      (absolute.insertionSort (· ≤ ·)).Pairwise (· ≤ ·) ∧
      SumsFit (absoluteOutputOffsetsToRelative absolute)) ∧
    ((relativeOutputOffsetsToAbsolute relative).Pairwise (· ≤ ·) ∧
        absoluteOutputOffsetsToRelative (relativeOutputOffsetsToAbsolute relative) = relative ↔
      SumsFit relative) := by
  have hback := relativeOutputOffsetsToAbsolute_relative absolute
  have hsorted : (absolute.insertionSort (· ≤ ·)).Pairwise (· ≤ ·) :=
    List.pairwise_insertionSort (· ≤ ·) absolute
  refine ⟨⟨hback, hsorted, ?_⟩, ?_⟩
  · rw [← absolute_rising_iff, hback]
    exact hsorted
  · constructor
    · rintro ⟨hrising, -⟩
      exact (absolute_rising_iff relative).1 hrising
    · intro hfits
      have hrising := (absolute_rising_iff relative).2 hfits
      exact ⟨hrising, absoluteOutputOffsetsToRelative_absolute hrising⟩

/-- A ring whose offsets wrap is accepted all the same: its indexes go down, and
sorted they are another ring. -/
theorem wrapped_offsets_accepted :
    ∃ n ring, PushPopRun Devnet.env n ∧
      n.chain.scanOutputkeysForIndexes Devnet.env Devnet.now Devnet.unit [1, 2 ^ 64 - 1] =
        .ok (some ring) ∧
      relativeOutputOffsetsToAbsolute [1, 2 ^ 64 - 1] = [1, 0] ∧
      absoluteOutputOffsetsToRelative [1, 0] = [0, 1] := by
  have heval : Devnet.sixty.isSome = true ∧
      Devnet.sixtyNode.chain.scanOutputkeysForIndexes Devnet.env Devnet.now Devnet.unit
        [1, 2 ^ 64 - 1] = .ok (some [(5, 1), (5, 0)]) ∧
      relativeOutputOffsetsToAbsolute [1, 2 ^ 64 - 1] = [1, 0] ∧
      absoluteOutputOffsetsToRelative [1, 0] = [0, 1] := by
    decide +kernel
  obtain ⟨hrun, hscan, hindexes, hsorted⟩ := heval
  exact ⟨_, _, Devnet.pushPopRun_sixtyNode hrun, hscan, hindexes, hsorted⟩

end DarknetSpace
