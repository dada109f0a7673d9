import DarknetSpace.Format.Extra

/-!
# Hexadecimal text (`string_tools.h`)

What is written is two digits a byte. What is read is two characters at a time
with `strtoul`, which allows for white space and a sign, so that some texts are
taken for bytes that no writer would have put that way.

So the reader is no inverse of the writer from its side, and the last section says what
a text denotes for it: pairs of characters, each a number that `strtoul` takes in base
sixteen (`parseHexByte_digits`). What was written is read back
(`parseHexstrToBinbuff_buffToHexNodelimer`); that is all a password file or a cancelled
payment needs.
-/

namespace DarknetSpace

/-- `isspace` in the C locale. -/
def isSpace (c : UInt8) : Bool := c = 32 || 9 ≤ c && c ≤ 13

def hexDigit (c : UInt8) : Option Nat :=
  if 48 ≤ c ∧ c ≤ 57 then some (c.toNat - 48)
  else if 65 ≤ c ∧ c ≤ 70 then some (c.toNat - 55)
  else if 97 ≤ c ∧ c ≤ 102 then some (c.toNat - 87)
  else none

/-- `strtoul(str, &endptr, 16)` as a `long`: the value, and how far `endptr` has
got. With two characters nothing overflows, and a `0x` has no digit behind it. -/
def strtoul (str : Blob) : Int × Nat :=
  let space := str.takeWhile isSpace
  let behind := str.drop space.length
  let sign : Int × Nat :=
    match behind with
    | 43 :: _ => (1, 1)
    | 45 :: _ => (-1, 1)
    | _ => (1, 0)
  let digits := (behind.drop sign.2).takeWhile fun c => (hexDigit c).isSome
  if digits = [] then (0, 0)
  else
    (sign.1 * (digits.foldl (fun v c => 16 * v + (hexDigit c).getD 0) 0 : Nat),
      space.length + sign.2 + digits.length)

/-- One round of the loop of `parse_hexstr_to_binbuff`. -/
def parseHexByte (byteStr : Blob) : Option UInt8 :=
  let v := strtoul byteStr
  if v.1 < 0 ∨ 0xFF < v.1 ∨ v.2 ≠ byteStr.length then none else some (UInt8.ofNat v.1.toNat)

def parseHexstrToBinbuff : Blob → Option Blob
  | [] => some []
  | [c] => (parseHexByte [c]).map fun v => [v]
  | c :: d :: rest =>
    match parseHexByte [c, d] with
    | none => none
    | some v => (parseHexstrToBinbuff rest).map fun res => v :: res

/-- A hash from a buffer of its size. -/
def hashOfBytes (data : Blob) : Option Hash :=
  if data.length = 32 then some (BitVec.ofNat 256 (podOfBytes data)) else none

/-- A digit as `std::hex` puts it. -/
def hexChar (n : Nat) : UInt8 := UInt8.ofNat (if n < 10 then 48 + n else 87 + n)

def buffToHexNodelimer (buff : Blob) : Blob :=
  buff.flatMap fun c => [hexChar (c.toNat / 16), hexChar (c.toNat % 16)]

/-! ## What a text denotes -/

/-- Two digits a byte, and nothing else. -/
def denotedBytes : Blob → Option Blob
  | [] => some []
  | [_] => none
  | c :: d :: rest =>
    match hexDigit c, hexDigit d with
    | some hi, some lo => (denotedBytes rest).map fun bytes => UInt8.ofNat (16 * hi + lo) :: bytes
    | _, _ => none

/-- Digits start at 48, behind the white space and the signs. -/
theorem hexDigit_range {c : UInt8} {n : Nat} (h : hexDigit c = some n) :
    48 ≤ c.toNat ∧ n < 16 := by
  unfold hexDigit at h
  simp only [UInt8.le_iff_toNat_le] at h
  have hbounds : (48 : UInt8).toNat = 48 ∧ (57 : UInt8).toNat = 57 ∧ (65 : UInt8).toNat = 65 ∧
      (70 : UInt8).toNat = 70 ∧ (97 : UInt8).toNat = 97 ∧ (102 : UInt8).toNat = 102 := by decide
  split at h
  · cases h
    omega
  · split at h
    · cases h
      omega
    · split at h
      · cases h
        omega
      · cases h

theorem hexDigit_plain {c : UInt8} {n : Nat} (h : hexDigit c = some n) :
    isSpace c = false ∧ c ≠ 43 ∧ c ≠ 45 := by
  have hrange := (hexDigit_range h).1
  refine ⟨?_, ?_, ?_⟩
  · have hne : c ≠ 32 := by
      rintro rfl
      exact absurd hrange (by decide)
    have hgt : ¬ c ≤ 13 := by
      rw [UInt8.le_iff_toNat_le]
      show ¬ c.toNat ≤ 13
      omega
    unfold isSpace
    rw [decide_eq_false hne, decide_eq_false hgt, Bool.and_false]
    rfl
  · rintro rfl
    exact absurd hrange (by decide)
  · rintro rfl
    exact absurd hrange (by decide)

/-- Two digits are read as what they denote. -/
theorem parseHexByte_digits {c d : UInt8} {hi lo : Nat} (hc : hexDigit c = some hi)
    (hd : hexDigit d = some lo) : parseHexByte [c, d] = some (UInt8.ofNat (16 * hi + lo)) := by
  obtain ⟨hspace, hplus, hminus⟩ := hexDigit_plain hc
  have hhi := (hexDigit_range hc).2
  have hlo := (hexDigit_range hd).2
  have hval : strtoul [c, d] = (((16 * hi + lo : Nat) : Int), 2) := by
    unfold strtoul
    simp [List.takeWhile, hspace, hc, hd, hplus, hminus]
  unfold parseHexByte
  rw [hval]
  simp only [List.length_cons, List.length_nil]
  rw [if_neg (by omega), Int.toNat_natCast]

theorem parseHexstrToBinbuff_denoted {s bytes : Blob} (h : denotedBytes s = some bytes) :
    parseHexstrToBinbuff s = some bytes := by
  fun_induction denotedBytes s generalizing bytes with
  | case1 =>
    cases h
    rfl
  | case2 => cases h
  | case3 c d rest hi lo hlo hhi ih =>
    obtain ⟨rest', hrest, rfl⟩ := Option.map_eq_some_iff.1 h
    unfold parseHexstrToBinbuff
    rw [parseHexByte_digits hhi hlo, ih hrest]
    rfl
  | case4 => cases h

theorem hexDigit_hexChar {n : Nat} (h : n < 16) : hexDigit (hexChar n) = some n := by
  have hall : ∀ m : Fin 16, hexDigit (hexChar m.val) = some m.val := by decide
  exact hall ⟨n, h⟩

theorem denotedBytes_buffToHexNodelimer (buff : Blob) :
    denotedBytes (buffToHexNodelimer buff) = some buff := by
  induction buff with
  | nil => rfl
  | cons c rest ih =>
    have hlt := c.toNat_lt
    have hbyte : UInt8.ofNat (16 * (c.toNat / 16) + c.toNat % 16) = c := by
      rw [Nat.div_add_mod]
      exact UInt8.ofNat_toNat
    unfold buffToHexNodelimer at ih ⊢
    rw [List.flatMap_cons, List.cons_append, List.cons_append, List.nil_append]
    unfold denotedBytes
    rw [hexDigit_hexChar (by omega), hexDigit_hexChar (by omega)]
    simp only [ih, Option.map_some, hbyte]

/-- What is written is read back. -/
theorem parseHexstrToBinbuff_buffToHexNodelimer (buff : Blob) :
    parseHexstrToBinbuff (buffToHexNodelimer buff) = some buff :=
  parseHexstrToBinbuff_denoted (denotedBytes_buffToHexNodelimer buff)

end DarknetSpace
