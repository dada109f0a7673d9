import DarknetSpace.Lib.Codec
import Mathlib.Algebra.Order.Group.Nat
import Mathlib.Tactic.Ring

/-!
# Variable-length integers (`varint.h`)

Groups of seven bits, the lowest first, every byte but the last with its high
bit set. `read_varint` reports a number that is cut off by the end of the
input, one that does not fit, and one with a superfluous last group by its
return value. `binary_archive` does not look at that value, and none of the
three leaves a mark on the stream: the archive goes on with the bits collected
so far, behind the byte that was in the way.

`VarintEnd` names the three, and a number that ended properly. The lemmas read one group
at a time, with the bits collected so far as an argument, and say what was read from
what the number is (`readVarintFrom_lt`). As a codec the number is always read, and
`RoundTrip` says which byte strings lose nothing by that.
-/

namespace DarknetSpace

/-- How `read_varint` ended. -/
inductive VarintEnd where
  | done
  | endOfInput
  | overflow
  | nonCanonical
  deriving DecidableEq

/-- The loop of `read_varint<bits>` from one `shift` on. -/
def readVarintFrom (bits : Nat) : (shift i : Nat) → List UInt8 → VarintEnd × Nat × List UInt8
  | _, i, [] => (.endOfInput, i, [])
  | shift, i, byte :: rest =>
    if shift + 7 ≥ bits ∧ byte.toNat ≥ 2 ^ (bits - shift) then (.overflow, i, rest)
    else if byte.toNat = 0 ∧ shift ≠ 0 then (.nonCanonical, i, rest)
    else
      let i := i + byte.toNat % 128 * 2 ^ shift
      if byte.toNat < 128 then (.done, i, rest) else readVarintFrom bits (shift + 7) i rest

/-- `read_varint<bits>`. -/
def readVarint (bits : Nat) (s : List UInt8) : VarintEnd × Nat × List UInt8 :=
  readVarintFrom bits 0 0 s

/-- `while (i >= 0x80)`, at most `fuel` times. -/
def writeVarintFrom : (fuel i : Nat) → List UInt8
  | 0, i => [UInt8.ofNat i]
  | fuel + 1, i =>
    if 128 ≤ i then UInt8.ofNat (i % 128 + 128) :: writeVarintFrom fuel (i / 128)
    else [UInt8.ofNat i]

/-- `write_varint`; ten bytes are enough for 64 bits. -/
def writeVarint (i : Nat) : List UInt8 := writeVarintFrom 9 i

/-! ## Reading back what was written -/

section

variable {bits : Nat}

/-- A byte below 128 is the last one. -/
theorem readVarintFrom_last {m shift i : Nat} (hm : m < 2 ^ (bits - shift)) (hlt : m < 128)
    (hzero : m = 0 → shift = 0) (rest : List UInt8) :
    readVarintFrom bits shift i (UInt8.ofNat m :: rest) = (.done, i + m * 2 ^ shift, rest) := by
  have hbyte : (UInt8.ofNat m).toNat = m := UInt8.toNat_ofNat_of_lt' (show m < 256 by omega)
  unfold readVarintFrom
  rw [hbyte, if_neg (by omega), if_neg (fun h => h.2 (hzero h.1)), if_pos hlt,
    Nat.mod_eq_of_lt hlt]

/-- One group and the groups above it. -/
theorem group_add (i m shift : Nat) :
    i + m % 128 * 2 ^ shift + m / 128 * 2 ^ (shift + 7) = i + m * 2 ^ shift := by
  have hm : m = m % 128 + m / 128 * 128 := (Nat.mod_add_div' m 128).symm
  have hpow : m / 128 * 2 ^ (shift + 7) = m / 128 * 128 * 2 ^ shift := by
    rw [Nat.pow_add]
    ring
  rw [hpow, Nat.add_assoc, ← Nat.add_mul, ← hm]

/-- The bits from one group on are those of the group and 128 times the rest. -/
theorem pow_bits_split {shift : Nat} (h : shift + 7 < bits) :
    2 ^ (bits - shift) = 2 ^ (bits - (shift + 7)) * 128 := by
  rw [show bits - shift = bits - (shift + 7) + 7 by omega, Nat.pow_add]

theorem readVarintFrom_write {fuel m shift i : Nat} (hm : m < 2 ^ (bits - shift))
    (hfuel : m < 128 ^ (fuel + 1)) (hzero : m = 0 → shift = 0) (rest : List UInt8) :
    readVarintFrom bits shift i (writeVarintFrom fuel m ++ rest) =
      (.done, i + m * 2 ^ shift, rest) := by
  induction fuel generalizing m shift i with
  | zero => exact readVarintFrom_last hm (by omega) hzero rest
  | succ fuel ih =>
    unfold writeVarintFrom
    by_cases hbig : 128 ≤ m
    · rw [if_pos hbig]
      have hbyte : (UInt8.ofNat (m % 128 + 128)).toNat = m % 128 + 128 :=
        UInt8.toNat_ofNat_of_lt' (show m % 128 + 128 < 256 by omega)
      -- a number of 128 and more needs another group, so one must fit
      have hshift : shift + 7 < bits := by
        by_contra hge
        have : 2 ^ (bits - shift) ≤ 2 ^ 7 := Nat.pow_le_pow_right (by omega) (by omega)
        omega
      have hsplit := pow_bits_split hshift
      have hdiv : m / 128 < 2 ^ (bits - (shift + 7)) := by omega
      have hpow : 128 ^ (fuel + 1 + 1) = 128 ^ (fuel + 1) * 128 := Nat.pow_succ _ _
      have hdivfuel : m / 128 < 128 ^ (fuel + 1) := by omega
      show readVarintFrom bits shift i
        (UInt8.ofNat (m % 128 + 128) :: (writeVarintFrom fuel (m / 128) ++ rest)) = _
      unfold readVarintFrom
      rw [hbyte, if_neg (by omega), if_neg (by omega)]
      simp only
      rw [if_neg (by omega), ih hdiv hdivfuel (by omega), Nat.add_mod_right, Nat.mod_mod, group_add]
    · rw [if_neg hbig]
      exact readVarintFrom_last hm (by omega) hzero rest

/-! ## What a number that was read looks like -/

/-- A byte that does not overflow and is not the last leaves room for another. -/
theorem room_of_more {shift : Nat} {byte : UInt8}
    (hfit : ¬(shift + 7 ≥ bits ∧ byte.toNat ≥ 2 ^ (bits - shift))) (hmore : ¬byte.toNat < 128) :
    shift + 7 < bits := by
  by_contra hge
  have : 2 ^ (bits - shift) ≤ 2 ^ 7 := Nat.pow_le_pow_right (by omega) (by omega)
  exact hfit ⟨by omega, by omega⟩

theorem last_fits {shift : Nat} {byte : UInt8}
    (hfit : ¬(shift + 7 ≥ bits ∧ byte.toNat ≥ 2 ^ (bits - shift))) (hlast : byte.toNat < 128) :
    byte.toNat < 2 ^ (bits - shift) := by
  by_cases hroom : shift + 7 ≥ bits
  · omega
  · have : 2 ^ 7 ≤ 2 ^ (bits - shift) := Nat.pow_le_pow_right (by omega) (by omega)
    omega

/-- A number read without a complaint was written by `write_varint`. -/
theorem writeVarintFrom_of_done {shift i n : Nat} {s rest : List UInt8}
    (h : readVarintFrom bits shift i s = (.done, n, rest)) :
    ∃ m, m < 2 ^ (bits - shift) ∧ (m = 0 → shift = 0) ∧ n = i + m * 2 ^ shift ∧
      ∀ fuel, m < 128 ^ (fuel + 1) → s = writeVarintFrom fuel m ++ rest := by
  induction s generalizing shift i with
  | nil => cases h
  | cons byte s ih =>
    unfold readVarintFrom at h
    split at h
    · cases h
    · next hfit =>
      split at h
      · cases h
      · next hnonzero =>
        simp only at h
        split at h
        · next hlast =>
          cases h
          refine ⟨byte.toNat, last_fits hfit hlast, ?_, ?_, ?_⟩
          · intro hbyte
            by_contra hshift
            exact hnonzero ⟨hbyte, hshift⟩
          · rw [Nat.mod_eq_of_lt hlast]
          · intro fuel _
            have hback : UInt8.ofNat byte.toNat = byte := UInt8.ofNat_toNat
            cases fuel with
            | zero =>
              unfold writeVarintFrom
              rw [hback]
              rfl
            | succ fuel =>
              unfold writeVarintFrom
              rw [if_neg (by omega), hback]
              rfl
        · next hmore =>
          obtain ⟨m, hm, hzero, hn, hbytes⟩ := ih h
          have hroom := room_of_more hfit hmore
          have hsplit := pow_bits_split hroom
          have hbyte : byte.toNat < 256 := byte.toNat_lt
          -- the number as the writer cuts it: seven bits, and the rest
          have hmod : (byte.toNat % 128 + m * 128) % 128 = byte.toNat % 128 := by omega
          have hdiv : (byte.toNat % 128 + m * 128) / 128 = m := by omega
          refine ⟨byte.toNat % 128 + m * 128, by omega, by omega, ?_, ?_⟩
          · have := group_add i (byte.toNat % 128 + m * 128) shift
            rw [hmod, hdiv] at this
            rw [hn, this]
          · intro fuel hfuel
            cases fuel with
            | zero => omega
            | succ fuel =>
              have hpow : 128 ^ (fuel + 1 + 1) = 128 ^ (fuel + 1) * 128 := Nat.pow_succ _ _
              have hback : UInt8.ofNat (byte.toNat % 128 + 128) = byte := by
                rw [show byte.toNat % 128 + 128 = byte.toNat by omega]
                exact UInt8.ofNat_toNat
              unfold writeVarintFrom
              rw [if_pos (by omega), hmod, hdiv, hback, hbytes fuel (by omega)]
              rfl

/-- Whatever the outcome, the bits collected fit. -/
theorem readVarintFrom_lt {shift i : Nat} (s : List UInt8) (hshift : shift ≤ bits)
    (hi : i < 2 ^ shift) : (readVarintFrom bits shift i s).2.1 < 2 ^ bits := by
  have hpow : 2 ^ shift ≤ 2 ^ bits := Nat.pow_le_pow_right (by omega) hshift
  induction s generalizing shift i with
  | nil => exact Nat.lt_of_lt_of_le hi hpow
  | cons byte s ih =>
    unfold readVarintFrom
    split
    · exact Nat.lt_of_lt_of_le hi hpow
    · next hfit =>
      split
      · exact Nat.lt_of_lt_of_le hi hpow
      · simp only
        split
        · next hlast =>
          have hle : byte.toNat + 1 ≤ 2 ^ (bits - shift) := last_fits hfit hlast
          show i + byte.toNat % 128 * 2 ^ shift < 2 ^ bits
          rw [Nat.mod_eq_of_lt hlast]
          calc i + byte.toNat * 2 ^ shift < 2 ^ shift + byte.toNat * 2 ^ shift := by omega
            _ = (byte.toNat + 1) * 2 ^ shift := by ring
            _ ≤ 2 ^ (bits - shift) * 2 ^ shift := Nat.mul_le_mul_right _ hle
            _ = 2 ^ bits := by rw [← Nat.pow_add, Nat.sub_add_cancel hshift]
        · next hmore =>
          have hroom := room_of_more hfit hmore
          refine ih (by omega) ?_ (Nat.pow_le_pow_right (by omega) (by omega))
          have hle : byte.toNat % 128 + 1 ≤ 2 ^ 7 := by omega
          calc i + byte.toNat % 128 * 2 ^ shift < 2 ^ shift + byte.toNat % 128 * 2 ^ shift := by omega
            _ = (byte.toNat % 128 + 1) * 2 ^ shift := by ring
            _ ≤ 2 ^ 7 * 2 ^ shift := Nat.mul_le_mul_right _ hle
            _ = 2 ^ (shift + 7) := by rw [← Nat.pow_add, Nat.add_comm]

end

/-! ## As a codec -/

/-- Ten groups of seven bits hold every number of 64 bits. -/
theorem lt_fuel_of_lt_bits {bits n : Nat} (hbits : bits ≤ 64) (h : n < 2 ^ bits) :
    n < 128 ^ (9 + 1) := by
  have : 2 ^ bits ≤ 2 ^ 64 := Nat.pow_le_pow_right (by omega) hbits
  omega

/-- `serialize_varint` of a number of `bits` bits. Loading drops what
`read_varint` returns; the strict mode is the one that does not. -/
def varint (bits : Nat) (hbits : bits ≤ 64) : Codec Nat where
  write n := ⟨writeVarint n, n < 2 ^ bits⟩
  read strict s :=
    let (e, n, rest) := readVarint bits s
    if strict = true ∧ e ≠ .done then none else some (n, rest)
  read_write strict n rest h := by
    have hn : n < 2 ^ bits := of_decide_eq_true h
    have hread : readVarintFrom bits 0 0 (writeVarintFrom 9 n ++ rest) =
        (.done, 0 + n * 2 ^ 0, rest) :=
      readVarintFrom_write hn (lt_fuel_of_lt_bits hbits hn) (fun _ => rfl) rest
    unfold readVarint writeVarint
    rw [hread]
    simp
  ok_of_read strict s n rest h := by
    have hlt : (readVarintFrom bits 0 0 s).2.1 < 2 ^ bits :=
      readVarintFrom_lt s (Nat.zero_le _) (by simp)
    simp only at h
    split at h
    · cases h
    · cases h
      exact decide_eq_true hlt
  write_read s n rest h := by
    simp only at h
    split at h
    · cases h
    · next hdone =>
      have hend : (readVarint bits s).1 = .done := by
        by_contra hne
        exact hdone ⟨trivial, hne⟩
      cases h
      have hread : readVarintFrom bits 0 0 s =
          (.done, (readVarint bits s).2.1, (readVarint bits s).2.2) := Prod.ext hend rfl
      obtain ⟨m, hm, -, hn, hbytes⟩ := writeVarintFrom_of_done hread
      rw [Nat.pow_zero, Nat.mul_one, Nat.zero_add] at hn
      rw [hn]
      exact hbytes 9 (lt_fuel_of_lt_bits hbits hm)
  loosen s r h := by
    simp only at h ⊢
    split at h
    · cases h
    · rw [if_neg (fun hc => absurd hc.1 (by decide))]
      exact h

theorem writeVarintFrom_length_le (fuel i : Nat) : (writeVarintFrom fuel i).length ≤ fuel + 1 := by
  induction fuel generalizing i with
  | zero => exact Nat.le_refl 1
  | succ fuel ih =>
    have := ih (i / 128)
    unfold writeVarintFrom
    split
    · rw [List.length_cons]
      omega
    · rw [List.length_singleton]
      omega

theorem writeVarint_length_le (i : Nat) : (writeVarint i).length ≤ 10 :=
  writeVarintFrom_length_le 9 i

theorem varint_pos {bits : Nat} (hbits : bits ≤ 64) (n : Nat) :
    0 < ((varint bits hbits).write n).bytes.length := by
  show 0 < (writeVarintFrom 9 n).length
  unfold writeVarintFrom
  split
  · exact Nat.succ_pos _
  · exact Nat.succ_pos _

end DarknetSpace
