import Mathlib.Data.List.TakeWhile
import Mathlib.Data.Nat.Bitwise
import DarknetSpace.Format.Address
import DarknetSpace.Format.RealSize

/-!
# Varints of a word (`varint.h`)

`write_varint` and `read_varint` on a word of any width, as the templates have
them, with what `read_varint` returns: the count of the bytes read, or a
negative number for one that overflows or has a superfluous last group. The end
of the input is reported by the count, too, so a number that is cut off passes
for a shorter one. `get_varint_packed_size` tells the length of a varint by a
table of thresholds, which ends two groups too early.

Main results: `readVarintOf_exact_iff`, for words of 8 to 64 bits: what is written is
read back, and a byte string that is read is the one that is written for the number,
unless the input cut it off. And `getVarintPackedSize_eq_iff`, that the table agrees
with the number of bytes written below 2^56.
-/

namespace DarknetSpace

variable {w : Nat}

/-- `write_varint`. -/
def writeVarintOf (i : BitVec w) : Blob :=
  if 0x80 ≤ i.toNat then (UInt8.ofNat i.toNat &&& 0x7f ||| 0x80) :: writeVarintOf (i >>> 7)
  else [UInt8.ofNat i.toNat]
termination_by i.toNat
decreasing_by
  rw [BitVec.toNat_ushiftRight, Nat.shiftRight_eq_div_pow]
  omega

/-- The loop of `read_varint<bits>`: what it returns, the number and the bytes
left. -/
def readVarintLoop (bits : Nat) : (shift read : Nat) → (i : BitVec w) → Blob → Int × BitVec w × Blob
  | _, read, i, [] => (read, i, [])
  | shift, read, i, byte :: rest =>
    if shift + 7 ≥ bits ∧ byte.toNat ≥ 1 <<< (bits - shift) then (-1, i, rest)
    else if byte = 0 ∧ shift ≠ 0 then (-2, i, rest)
    else
      let i := i ||| BitVec.ofNat w (byte &&& 0x7f).toNat <<< shift
      if byte &&& 0x80 = 0 then (read + 1, i, rest)
      else readVarintLoop bits (shift + 7) (read + 1) i rest

/-- `read_varint` for a word of that width. -/
def readVarintOf (w : Nat) (s : Blob) : Int × BitVec w × Blob := readVarintLoop w 0 0 0 s

/-! ## Words and numbers -/

theorem toNat_and_low7 (b : UInt8) : (b &&& 0x7f).toNat = b.toNat % 128 := by
  rw [UInt8.toNat_and]
  exact Nat.and_two_pow_sub_one_eq_mod b.toNat 7

/-- The mark of a byte with others behind it. -/
theorem and_high_eq_zero_iff (b : UInt8) : b &&& 0x80 = 0 ↔ b.toNat < 128 := by
  have hb : b.toNat < 256 := b.toNat_lt
  rw [← UInt8.toNat_inj, UInt8.toNat_and]
  show b.toNat &&& 2 ^ 7 = 0 ↔ _
  rw [Nat.and_two_pow, Nat.testBit_eq_decide_div_mod_eq]
  by_cases hhigh : b.toNat / 2 ^ 7 % 2 = 1
  · rw [decide_eq_true hhigh, Bool.toNat_true]
    omega
  · rw [decide_eq_false hhigh, Bool.toNat_false]
    omega

theorem marked_group (n : Nat) :
    UInt8.ofNat n &&& 0x7f ||| 0x80 = UInt8.ofNat (n % 128 + 128) := by
  have hlow : (UInt8.ofNat n &&& 0x7f).toNat = n % 128 := by
    rw [toNat_and_low7, UInt8.toNat_ofNat']
    omega
  apply UInt8.toNat_inj.1
  rw [UInt8.toNat_or, hlow, UInt8.toNat_ofNat_of_lt' (show _ < 256 by omega), Nat.or_comm,
    Nat.add_comm]
  exact (Nat.two_pow_add_eq_or_of_lt (i := 7) (by omega) 1).symm

/-- A group above the bits there are. -/
theorem toNat_or_group {i : BitVec w} {shift n : Nat} (hi : i.toNat < 2 ^ shift)
    (hn : n < 2 ^ (w - shift)) (hshift : shift ≤ w) :
    (i ||| BitVec.ofNat w n <<< shift).toNat = i.toNat + n * 2 ^ shift := by
  have hpow : 2 ^ (w - shift) * 2 ^ shift = 2 ^ w := by
    rw [← Nat.pow_add, Nat.sub_add_cancel hshift]
  have hlt : n * 2 ^ shift < 2 ^ w := by
    rw [← hpow]
    exact Nat.mul_lt_mul_of_pos_right hn (by positivity)
  have hle : 2 ^ (w - shift) ≤ 2 ^ w := Nat.pow_le_pow_right (by omega) (Nat.sub_le _ _)
  have hword : n % 2 ^ w = n := Nat.mod_eq_of_lt (Nat.lt_of_lt_of_le hn hle)
  rw [BitVec.toNat_or, BitVec.toNat_shiftLeft, BitVec.toNat_ofNat, hword, Nat.shiftLeft_eq,
    Nat.mod_eq_of_lt hlt, ← Nat.shiftLeft_eq, Nat.or_comm, Nat.add_comm,
    ← Nat.shiftLeft_add_eq_or_of_lt hi]

/-- Group by group a word is written as its number. -/
theorem writeVarintOf_eq {fuel : Nat} {i : BitVec w} (h : i.toNat < 128 ^ (fuel + 1)) :
    writeVarintOf i = writeVarintFrom fuel i.toNat := by
  induction fuel generalizing i with
  | zero =>
    unfold writeVarintOf writeVarintFrom
    rw [if_neg (by omega)]
  | succ fuel ih =>
    unfold writeVarintOf writeVarintFrom
    by_cases hmore : 0x80 ≤ i.toNat
    · have hshift : (i >>> 7).toNat = i.toNat / 128 := by
        rw [BitVec.toNat_ushiftRight, Nat.shiftRight_eq_div_pow]
      have hpow : 128 ^ (fuel + 1 + 1) = 128 ^ (fuel + 1) * 128 := Nat.pow_succ _ _
      rw [if_pos hmore, if_pos hmore, marked_group, ih (by omega), hshift]
    · rw [if_neg hmore, if_neg hmore]

/-- What `read_varint` returns for an outcome. -/
def varintCount (read : Nat) : VarintEnd → Int
  | .done | .endOfInput => read
  | .overflow => -1
  | .nonCanonical => -2

/-- And read as one: no bit is shifted out of the word. -/
theorem readVarintLoop_eq {shift read : Nat} {i : BitVec w} (s : Blob) (hshift : shift ≤ w)
    (hi : i.toNat < 2 ^ shift) :
    readVarintLoop w shift read i s =
      let (e, n, rest) := readVarintFrom w shift i.toNat s
      (varintCount (read + s.length - rest.length) e, BitVec.ofNat w n, rest) := by
  induction s generalizing shift read i with
  | nil =>
    show ((read : Int), i, ([] : Blob)) = (((read + 0 - 0 : Nat) : Int), BitVec.ofNat w i.toNat, [])
    rw [BitVec.ofNat_toNat, BitVec.setWidth_eq]
    rfl
  | cons byte s ih =>
    unfold readVarintLoop readVarintFrom
    rw [Nat.one_shiftLeft]
    have hzero : byte = 0 ↔ byte.toNat = 0 := UInt8.toNat_inj.symm
    by_cases hover : shift + 7 ≥ w ∧ byte.toNat ≥ 2 ^ (w - shift)
    · rw [if_pos hover, if_pos hover]
      simp only
      rw [BitVec.ofNat_toNat, BitVec.setWidth_eq]
      rfl
    · rw [if_neg hover, if_neg hover]
      by_cases hnull : byte.toNat = 0 ∧ shift ≠ 0
      · rw [if_pos ⟨hzero.2 hnull.1, hnull.2⟩, if_pos hnull]
        simp only
        rw [BitVec.ofNat_toNat, BitVec.setWidth_eq]
        rfl
      · rw [if_neg fun h => hnull ⟨hzero.1 h.1, h.2⟩, if_neg hnull]
        -- no bit of the group is shifted out of the word
        have hfits : byte.toNat % 128 < 2 ^ (w - shift) := by
          by_cases hlast : byte.toNat < 128
          · rw [Nat.mod_eq_of_lt hlast]
            exact last_fits hover hlast
          · have hroom := room_of_more hover hlast
            have : 2 ^ 7 ≤ 2 ^ (w - shift) := Nat.pow_le_pow_right (by omega) (by omega)
            omega
        -- the groups do not overlap, so `|=` adds
        have hgroup := toNat_or_group hi hfits hshift
        simp only [and_high_eq_zero_iff, toNat_and_low7]
        by_cases hlast : byte.toNat < 128
        · rw [if_pos hlast, if_pos hlast]
          simp only
          rw [← hgroup, BitVec.ofNat_toNat, BitVec.setWidth_eq, List.length_cons]
          show ((read + 1 : Int), _, _) = (((read + (s.length + 1) - s.length : Nat) : Int), _, _)
          rw [show read + (s.length + 1) - s.length = read + 1 by omega]
          rfl
        · rw [if_neg hlast, if_neg hlast, ← hgroup]
          have hroom := room_of_more hover hlast
          have hnext : (i ||| BitVec.ofNat w (byte.toNat % 128) <<< shift).toNat < 2 ^ (shift + 7) := by
            have hle : byte.toNat % 128 + 1 ≤ 2 ^ 7 := by omega
            rw [hgroup]
            calc i.toNat + byte.toNat % 128 * 2 ^ shift
                < 2 ^ shift + byte.toNat % 128 * 2 ^ shift := by omega
              _ = (byte.toNat % 128 + 1) * 2 ^ shift := by ring
              _ ≤ 2 ^ 7 * 2 ^ shift := Nat.mul_le_mul_right _ hle
              _ = 2 ^ (shift + 7) := by rw [← Nat.pow_add, Nat.add_comm]
          rw [ih (by omega) hnext, List.length_cons, Nat.add_assoc, Nat.add_comm 1]

/-! ## Byte sequences -/

/-- What follows the bytes with their high bit set. -/
def pastGroups (s : Blob) : Blob := s.dropWhile fun b => decide (128 ≤ b.toNat)

/-- The number in front: its groups, the lowest first. -/
def groupsValue : Blob → Nat
  | [] => 0
  | b :: rest => if b.toNat < 128 then b.toNat else b.toNat % 128 + 128 * groupsValue rest

/-- No byte ends the number. -/
def Unterminated (s : Blob) : Prop := pastGroups s = []

/-- The last group has nothing in it, and is not the only one. -/
def OverLong (s : Blob) : Prop := (pastGroups s).head? = some 0 ∧ pastGroups s ≠ s

def Overflowing (w : Nat) (s : Blob) : Prop := 2 ^ w ≤ groupsValue s

/-- The input ends inside a number while it still has room. -/
def CutOff (w : Nat) (s : Blob) : Prop := s ≠ [] ∧ Unterminated s ∧ 7 * s.length < w

/-- `read_varint` gives back what `write_varint` has written, whatever follows,
takes nothing else for a number, and refuses the rest. -/
structure ReadsExactly (w : Nat) (s : Blob) : Prop where
  back : ∀ (v : BitVec w) (rest : Blob), s = writeVarintOf v ++ rest →
    (readVarintOf w s).1 = (writeVarintOf v).length ∧ (readVarintOf w s).2.1 = v
  canonical : 0 < (readVarintOf w s).1 →
    s.take (readVarintOf w s).1.toNat = writeVarintOf (readVarintOf w s).2.1
  refused : OverLong s ∨ Overflowing w s ∨ Unterminated s → (readVarintOf w s).1 ≤ 0

theorem pastGroups_cons (b : UInt8) (s : Blob) :
    pastGroups (b :: s) = if 128 ≤ b.toNat then pastGroups s else b :: s := by
  unfold pastGroups
  rw [List.dropWhile_cons]
  simp only [decide_eq_true_eq]

theorem unterminated_iff {s : Blob} : Unterminated s ↔ ∀ b ∈ s, 128 ≤ b.toNat := by
  unfold Unterminated pastGroups
  rw [List.dropWhile_eq_nil_iff]
  simp only [decide_eq_true_eq]

/-- A number that is read has an end, with something in it if it is not the only
group, and is the value of its groups. -/
theorem readVarintFrom_done_groups {bits shift i n : Nat} {s rest : Blob}
    (h : readVarintFrom bits shift i s = (.done, n, rest)) :
    (∃ b, (pastGroups s).head? = some b ∧ (b = 0 → shift = 0 ∧ pastGroups s = s)) ∧
      n = i + groupsValue s * 2 ^ shift := by
  induction s generalizing shift i with
  | nil => cases h
  | cons byte s ih =>
    unfold readVarintFrom at h
    split at h
    · cases h
    · split at h
      · cases h
      · next hnonzero =>
        simp only at h
        rw [pastGroups_cons]
        unfold groupsValue
        by_cases hlast : byte.toNat < 128
        · rw [if_pos hlast] at h ⊢
          cases h
          rw [if_neg (by omega), Nat.mod_eq_of_lt hlast]
          refine ⟨⟨byte, rfl, ?_⟩, rfl⟩
          intro hzero
          refine ⟨?_, rfl⟩
          by_contra hshift
          exact hnonzero ⟨congrArg UInt8.toNat hzero, hshift⟩
        · rw [if_neg hlast] at h ⊢
          obtain ⟨⟨b, hb, hzero⟩, hn⟩ := ih h
          rw [if_pos (by omega)]
          refine ⟨⟨b, hb, ?_⟩, ?_⟩
          · intro h0
            exact absurd (hzero h0).1 (by omega)
          · rw [hn, Nat.pow_add]
            ring

/-! ## What `read_varint` returns -/

theorem readVarintOf_eq (w : Nat) (s : Blob) :
    readVarintOf w s =
      let (e, n, rest) := readVarint w s
      (varintCount (s.length - rest.length) e, BitVec.ofNat w n, rest) := by
  have hzero : (0 : BitVec w).toNat = 0 := BitVec.toNat_zero
  have hstart : (0 : BitVec w).toNat < 2 ^ 0 := by
    rw [hzero]
    exact Nat.one_pos
  unfold readVarintOf readVarint
  rw [readVarintLoop_eq s (Nat.zero_le w) hstart, hzero, Nat.zero_add]

/-- At the end of the input nothing is left. -/
theorem readVarintFrom_nothing_left {bits shift i : Nat} {s : Blob}
    (h : (readVarintFrom bits shift i s).1 = .endOfInput) :
    (readVarintFrom bits shift i s).2.2 = [] := by
  induction s generalizing shift i with
  | nil => rfl
  | cons byte s ih =>
    unfold readVarintFrom at h ⊢
    split at h
    · cases h
    · next hfit =>
      rw [if_neg hfit]
      split at h
      · cases h
      · next hnonzero =>
        rw [if_neg hnonzero]
        simp only at h ⊢
        split at h
        · cases h
        · next hmore =>
          rw [if_neg hmore]
          exact ih h

theorem cutOff_iff (hpos : 0 < w) (s : Blob) :
    CutOff w s ↔ s ≠ [] ∧ (readVarint w s).1 = .endOfInput := by
  have hend : (readVarintFrom w 0 0 s).1 = .endOfInput ↔ _ := readVarintFrom_endOfInput hpos
  unfold CutOff readVarint
  rw [hend, unterminated_iff, Nat.zero_add]

theorem writeVarintOf_eq_writeVarint (hw : w ≤ 64) (v : BitVec w) : writeVarintOf v = writeVarint v.toNat :=
  writeVarintOf_eq (lt_fuel_of_lt_bits hw v.isLt)

theorem readVarint_writeVarintOf (hw : w ≤ 64) (v : BitVec w) (rest : Blob) :
    readVarint w (writeVarintOf v ++ rest) = (.done, v.toNat, rest) := by
  have hread : readVarintFrom w 0 0 (writeVarintFrom 9 v.toNat ++ rest) =
      (.done, 0 + v.toNat * 2 ^ 0, rest) :=
    readVarintFrom_write v.isLt (lt_fuel_of_lt_bits hw v.isLt) (fun _ => rfl) rest
  rw [Nat.pow_zero, Nat.mul_one, Nat.zero_add] at hread
  rw [writeVarintOf_eq_writeVarint hw]
  exact hread

/-- A number that is read is below `2 ^ w` and was written. -/
theorem writeVarintOf_of_done (hw : w ≤ 64) {s rest : Blob} {n : Nat}
    (h : readVarint w s = (.done, n, rest)) :
    n < 2 ^ w ∧ s = writeVarintOf (BitVec.ofNat w n) ++ rest := by
  obtain ⟨m, hm, -, hn, hbytes⟩ := writeVarintFrom_of_done h
  rw [Nat.pow_zero, Nat.mul_one, Nat.zero_add] at hn
  subst hn
  have hword : (BitVec.ofNat w n).toNat = n := by
    rw [BitVec.toNat_ofNat]
    exact Nat.mod_eq_of_lt hm
  refine ⟨hm, ?_⟩
  rw [writeVarintOf_eq_writeVarint hw, hword]
  exact hbytes 9 (lt_fuel_of_lt_bits hw hm)

/-- **Varints are exact and canonical**, but for those that the input cuts off. -/
theorem readVarintOf_exact_iff (hpos : 0 < w) (hw : w ≤ 64) (s : Blob) :
    ReadsExactly w s ↔ ¬ CutOff w s := by
  rw [cutOff_iff hpos]
  obtain ⟨⟨e, n, rest⟩, hread⟩ : ∃ r, readVarint w s = r := ⟨_, rfl⟩
  have heq : readVarintOf w s =
      (varintCount (s.length - rest.length) e, BitVec.ofNat w n, rest) := by
    rw [readVarintOf_eq, hread]
  constructor
  · rintro ⟨-, -, hrefused⟩ ⟨hne, hend⟩
    have hleft : (readVarint w s).2.2 = [] := readVarintFrom_nothing_left hend
    have hcut := ((cutOff_iff hpos s).2 ⟨hne, hend⟩).2.1
    have hlength := List.length_pos_iff.2 hne
    have hcount := hrefused (.inr (.inr hcut))
    rw [hread] at hend hleft
    cases hend
    cases hleft
    rw [heq] at hcount
    replace hcount : ((s.length - 0 : Nat) : Int) ≤ 0 := hcount
    omega
  · intro hcut
    -- what is left once the end of a non-empty input is excluded
    have hempty : e = .endOfInput → s = [] := by
      rintro rfl
      by_contra hne
      exact hcut ⟨hne, congrArg Prod.fst hread⟩
    refine ⟨?_, ?_, ?_⟩
    · rintro v rest' rfl
      rw [readVarint_writeVarintOf hw] at hread
      cases hread
      rw [heq, List.length_append, Nat.add_sub_cancel]
      refine ⟨rfl, ?_⟩
      show BitVec.ofNat w v.toNat = v
      rw [BitVec.ofNat_toNat, BitVec.setWidth_eq]
    · rw [heq]
      intro hcount
      cases e with
      | done =>
        obtain ⟨-, hs⟩ := writeVarintOf_of_done hw hread
        show s.take (s.length - rest.length) = writeVarintOf (BitVec.ofNat w n)
        rw [hs, List.length_append, Nat.add_sub_cancel, List.take_left]
      | endOfInput =>
        rw [hempty rfl] at hcount
        replace hcount : (0 : Int) < ((0 - rest.length : Nat) : Int) := hcount
        omega
      | overflow => cases hcount
      | nonCanonical => cases hcount
    · rw [heq]
      intro hbad
      cases e with
      | done =>
        obtain ⟨⟨b, hhead, hzero⟩, hn⟩ := readVarintFrom_done_groups hread
        rw [Nat.pow_zero, Nat.mul_one, Nat.zero_add] at hn
        rcases hbad with ⟨hlast, hother⟩ | hbig | hopen
        · rw [hlast] at hhead
          exact absurd (hzero (Option.some.inj hhead).symm).2 hother
        · obtain ⟨hlt, -⟩ := writeVarintOf_of_done hw hread
          unfold Overflowing at hbig
          omega
        · rw [hopen] at hhead
          cases hhead
      | endOfInput =>
        rw [hempty rfl]
        show ((0 - rest.length : Nat) : Int) ≤ 0
        omega
      | overflow =>
        show (-1 : Int) ≤ 0
        decide
      | nonCanonical =>
        show (-2 : Int) ≤ 0
        decide

/-- A full varint of eight bits. -/
theorem readVarintOf_exact_full : ReadsExactly 8 [0xff, 0x01] :=
  (readVarintOf_exact_iff (by decide) (by decide) _).2
    fun h => absurd h.2.2 (by decide)

/-- One byte that asks for another: it is read as the number zero. -/
theorem varint_cut_off_accepted :
    readVarintOf 64 [0x80] = (1, 0, []) ∧ ¬ ReadsExactly 64 [0x80] := by
  have hread : readVarintOf 64 [0x80] = (1, 0, []) := by decide
  refine ⟨hread, fun h => ?_⟩
  have hcount := h.refused (.inr (.inr (unterminated_iff.2 ?_)))
  · rw [hread] at hcount
    exact absurd hcount (by decide)
  · intro b hb
    rw [List.mem_singleton.1 hb]
    decide

/-! ## The table of lengths -/

theorem le_varintSize {k : Nat} {v : Nat} (h : 128 ^ k ≤ v) : k + 1 ≤ varintSize v := by
  induction k generalizing v with
  | zero => exact one_le_varintSize v
  | succ k ih =>
    have hpow : 128 ^ (k + 1) = 128 ^ k * 128 := Nat.pow_succ _ _
    have hone : 1 ≤ 128 ^ k := Nat.one_le_pow _ _ (by omega)
    have hdiv : 128 ^ k ≤ v / 128 := by
      rw [Nat.le_div_iff_mul_le (by omega)]
      omega
    unfold varintSize
    rw [if_neg (by omega)]
    have := ih hdiv
    omega

/-- **The table of lengths is right** as far as eight bytes go. -/
theorem getVarintPackedSize_eq_iff (v : BitVec 64) :
    getVarintPackedSize v.toNat = (writeVarintOf v).length ↔ v.toNat < 2 ^ 56 := by
  rw [writeVarintOf_eq_writeVarint (Nat.le_refl 64), writeVarint_length v.isLt]
  constructor
  · intro h
    by_contra hbig
    have hlong : 9 ≤ varintSize v.toNat := le_varintSize (k := 8) (by omega)
    have hshort : getVarintPackedSize v.toNat ≤ 8 := by
      unfold getVarintPackedSize
      repeat' split
      all_goals omega
    omega
  · exact getVarintPackedSize_eq

theorem packed_size_too_small :
    getVarintPackedSize (2 ^ 56) = 8 ∧ (writeVarintOf (BitVec.ofNat 64 (2 ^ 56))).length = 9 := by
  refine ⟨by decide, ?_⟩
  rw [writeVarintOf_eq_writeVarint (Nat.le_refl 64)]
  decide

end DarknetSpace
