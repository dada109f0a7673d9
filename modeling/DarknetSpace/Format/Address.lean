import DarknetSpace.Format.Base58
import DarknetSpace.Format.Varint

/-!
# Addresses (`common/base58.cpp`)

A tag as a varint, the data behind it, and the first bytes of the hash of both,
in base58. Of the strings the block code lets through the checksum is to leave
those that `encode_addr` makes. But `read_varint` reports the end of the input by
the count of what it has read, as it reports success, and so a tag that is cut
off there passes for a tag.

`CutTag` is the strings whose tag is cut off. `decodeAddr_eq_some` says what is decoded,
and `eq_writeVarint_of_done` that a tag that ended properly was written like that. Main
result: `decodeAddr_canonical_iff`. An address that was made is decoded to what it was
made from; and what is decoded was made from the outcome, unless its tag is cut off,
which writing it again would not leave as it is.
-/

namespace DarknetSpace

def addrChecksumSize : Nat := 4

section

variable (cnFastHash : Blob → Hash)

/-- The first bytes of the hash. -/
def addrChecksum (buf : Blob) : Blob :=
  (bytesOfPod 32 (cnFastHash buf).toNat).take addrChecksumSize

def encodeAddr (tag : UInt64) (data : Blob) : Option Blob :=
  let buf := writeVarint tag.toNat ++ data
  base58Encode (buf ++ addrChecksum cnFastHash buf)

/-- What `read_varint` returns: the count of the bytes read, or why not. -/
def readVarintResult (s : Blob) : Int :=
  let (e, _, rest) := readVarint 64 s
  match e with
  | .done | .endOfInput => s.length - rest.length
  | .overflow => -1
  | .nonCanonical => -2

def decodeAddr (addr : Blob) : Option (UInt64 × Blob) :=
  match base58Decode addr with
  | none => none
  | some addrData =>
    if addrData.length ≤ addrChecksumSize then none
    else
      let checksum := addrData.drop (addrData.length - addrChecksumSize)
      let addrData := addrData.take (addrData.length - addrChecksumSize)
      if addrChecksum cnFastHash addrData ≠ checksum then none
      else
        let read := readVarintResult addrData
        if read ≤ 0 then none
        else some (UInt64.ofNat (readVarint 64 addrData).2.1, addrData.drop read.toNat)

end

/-! ## Numbers cut off by the end of the input -/

/-- A number is cut off when each of its bytes asks for another and the last
still has room for one. -/
theorem readVarintFrom_endOfInput {bits shift i : Nat} {s : Blob} (hshift : shift < bits) :
    (readVarintFrom bits shift i s).1 = .endOfInput ↔
      (∀ b ∈ s, 128 ≤ b.toNat) ∧ shift + 7 * s.length < bits := by
  induction s generalizing shift i with
  | nil =>
    refine ⟨fun _ => ⟨fun b hb => absurd hb List.not_mem_nil, ?_⟩, fun _ => rfl⟩
    rw [List.length_nil]
    omega
  | cons byte s ih =>
    unfold readVarintFrom
    rw [List.forall_mem_cons, List.length_cons]
    by_cases hover : shift + 7 ≥ bits ∧ byte.toNat ≥ 2 ^ (bits - shift)
    · rw [if_pos hover]
      constructor
      · intro h
        cases h
      · intro h
        omega
    · rw [if_neg hover]
      by_cases hzero : byte.toNat = 0 ∧ shift ≠ 0
      · rw [if_pos hzero]
        constructor
        · intro h
          cases h
        · intro h
          omega
      · rw [if_neg hzero]
        simp only
        by_cases hlast : byte.toNat < 128
        · rw [if_pos hlast]
          constructor
          · intro h
            cases h
          · intro h
            omega
        · have hroom := room_of_more hover hlast
          rw [if_neg hlast, ih hroom]
          constructor
          · rintro ⟨hmore, hlen⟩
            exact ⟨⟨by omega, hmore⟩, by omega⟩
          · rintro ⟨⟨-, hmore⟩, hlen⟩
            exact ⟨hmore, by omega⟩

/-- Something is read off the front of what there is. -/
theorem readVarintFrom_taken (bits shift i : Nat) (s : Blob) :
    ∃ taken, s = taken ++ (readVarintFrom bits shift i s).2.2 ∧ (s ≠ [] → taken ≠ []) := by
  induction s generalizing shift i with
  | nil => exact ⟨[], rfl, fun h => h⟩
  | cons byte s ih =>
    unfold readVarintFrom
    split
    · exact ⟨[byte], rfl, fun _ => List.cons_ne_nil _ _⟩
    · split
      · exact ⟨[byte], rfl, fun _ => List.cons_ne_nil _ _⟩
      · simp only
        split
        · exact ⟨[byte], rfl, fun _ => List.cons_ne_nil _ _⟩
        · obtain ⟨taken, hs, -⟩ := ih (shift + 7) (i + byte.toNat % 128 * 2 ^ shift)
          exact ⟨byte :: taken, congrArg (byte :: ·) hs, fun _ => List.cons_ne_nil _ _⟩

/-- A tag that was read in full was written by `write_varint`, with the data
behind it. -/
theorem eq_writeVarint_of_done {s rest : Blob} {n : Nat}
    (h : readVarint 64 s = (.done, n, rest)) : n < 2 ^ 64 ∧ s = writeVarint n ++ rest := by
  obtain ⟨m, hm, -, hn, hbytes⟩ := writeVarintFrom_of_done h
  rw [Nat.pow_zero, Nat.mul_one, Nat.zero_add] at hn
  rw [hn]
  exact ⟨hm, hbytes 9 (lt_fuel_of_lt_bits (Nat.le_refl 64) hm)⟩

theorem readVarint_writeVarint (tag : UInt64) (data : Blob) :
    readVarint 64 (writeVarint tag.toNat ++ data) = (.done, tag.toNat, data) := by
  have hlt : tag.toNat < 2 ^ 64 := tag.toNat_lt
  have hread : readVarintFrom 64 0 0 (writeVarintFrom 9 tag.toNat ++ data) =
      (.done, 0 + tag.toNat * 2 ^ 0, data) :=
    readVarintFrom_write hlt (lt_fuel_of_lt_bits (Nat.le_refl 64) hlt) (fun _ => rfl) data
  rw [Nat.pow_zero, Nat.mul_one, Nat.zero_add] at hread
  exact hread

/-! ## What `decode_addr` accepts -/

section

variable (cnFastHash : Blob → Hash)

theorem length_addrChecksum (buf : Blob) : (addrChecksum cnFastHash buf).length = 4 := by
  unfold addrChecksum addrChecksumSize
  rw [List.length_take, bytesOfPod_length]
  rfl

/-- What `decode_addr` makes of a body: nothing but an empty one and one with a
complaint is refused. -/
theorem readVarintResult_pos_iff (body : Blob) (tag : UInt64) (data : Blob) :
    (0 < readVarintResult body ∧ UInt64.ofNat (readVarint 64 body).2.1 = tag ∧
        body.drop (readVarintResult body).toNat = data) ↔
      body ≠ [] ∧ (readVarint 64 body = (.done, tag.toNat, data) ∨
        readVarint 64 body = (.endOfInput, tag.toNat, data)) := by
  have hlt : (readVarint 64 body).2.1 < 2 ^ 64 :=
    readVarintFrom_lt body (Nat.zero_le 64) (by decide)
  have htaken : ∃ taken, body = taken ++ (readVarint 64 body).2.2 ∧ (body ≠ [] → taken ≠ []) :=
    readVarintFrom_taken 64 0 0 body
  unfold readVarintResult
  obtain ⟨⟨e, n, rest⟩, hread⟩ : ∃ r, readVarint 64 body = r := ⟨_, rfl⟩
  rw [hread] at hlt htaken ⊢
  obtain ⟨taken, hbody, htaken⟩ := htaken
  replace hbody : body = taken ++ rest := hbody
  have hcount : (body.length : Int) - rest.length = taken.length := by
    have hlen := congrArg List.length hbody
    rw [List.length_append] at hlen
    omega
  have hdrop : body.drop taken.length = rest := by
    rw [hbody, List.drop_left]
  have htag : UInt64.ofNat n = tag ↔ n = tag.toNat := by
    constructor
    · rintro rfl
      rw [UInt64.toNat_ofNat_of_lt' hlt]
    · rintro rfl
      exact UInt64.ofNat_toNat
  have hpos : 0 < taken.length ↔ body ≠ [] := by
    rw [List.length_pos_iff]
    refine ⟨fun h hnil => ?_, htaken⟩
    rw [hnil] at hbody
    exact h (List.append_eq_nil_iff.1 hbody.symm).1
  cases e with
  | done =>
    simp only [hcount, Int.toNat_natCast, hdrop, htag, Prod.mk.injEq, true_and, reduceCtorEq,
      false_and, or_false, Int.natCast_pos, hpos]
  | endOfInput =>
    simp only [hcount, Int.toNat_natCast, hdrop, htag, Prod.mk.injEq, true_and, reduceCtorEq,
      false_and, false_or, Int.natCast_pos, hpos]
  | overflow =>
    refine ⟨fun h => absurd h.1 (by decide : ¬(0 : Int) < -1), fun h => ?_⟩
    rcases h.2 with h | h <;> cases h
  | nonCanonical =>
    refine ⟨fun h => absurd h.1 (by decide : ¬(0 : Int) < -2), fun h => ?_⟩
    rcases h.2 with h | h <;> cases h

/-- A tag with data, or the beginning of a tag. -/
theorem decodeAddr_eq_some (addr : Blob) (tag : UInt64) (data : Blob) :
    decodeAddr cnFastHash addr = some (tag, data) ↔
      ∃ body, base58Decode addr = some (body ++ addrChecksum cnFastHash body) ∧ body ≠ [] ∧
        (readVarint 64 body = (.done, tag.toNat, data) ∨
          readVarint 64 body = (.endOfInput, tag.toNat, data)) := by
  unfold decodeAddr
  cases hdecode : base58Decode addr with
  | none =>
    refine ⟨nofun, ?_⟩
    rintro ⟨body, h, -⟩
    cases h
  | some addrData =>
    constructor
    · intro h
      simp only at h
      split at h
      · cases h
      · next hlong =>
        split at h
        · cases h
        · next hsum =>
          rw [ne_eq, not_not] at hsum
          split at h
          · cases h
          · next hread =>
            cases h
            refine ⟨addrData.take (addrData.length - addrChecksumSize), ?_,
              (readVarintResult_pos_iff _ _ _).1 ⟨by omega, rfl, rfl⟩⟩
            rw [hsum, List.take_append_drop]
    · rintro ⟨body, h, hbody⟩
      cases h
      have hsize : (body ++ addrChecksum cnFastHash body).length - addrChecksumSize =
          body.length := by
        rw [List.length_append, length_addrChecksum]
        exact Nat.add_sub_cancel _ 4
      have hlong : ¬(body ++ addrChecksum cnFastHash body).length ≤ addrChecksumSize := by
        have hpos := List.length_pos_of_ne_nil hbody.1
        rw [List.length_append, length_addrChecksum]
        unfold addrChecksumSize
        omega
      obtain ⟨hread, htag, hdata⟩ := (readVarintResult_pos_iff body tag data).2 hbody
      simp only
      rw [if_neg hlong, hsize, List.drop_left, List.take_left, if_neg (fun hne => hne rfl),
        if_neg (by omega), htag, hdata]

/-! ## What it takes to make the string again -/

/-- The string holds a tag that is cut off: at most nine bytes, each of them asking
for another, in front of their checksum. -/
def CutTag (addr : Blob) : Prop :=
  ∃ body, base58Encode (body ++ addrChecksum cnFastHash body) = some addr ∧
    body ≠ [] ∧ body.length ≤ 9 ∧ ∀ b ∈ body, 128 ≤ b.toNat

theorem cutTag_iff (addr : Blob) :
    CutTag cnFastHash addr ↔
      ∃ body, base58Decode addr = some (body ++ addrChecksum cnFastHash body) ∧ body ≠ [] ∧
        (readVarint 64 body).1 = .endOfInput := by
  unfold CutTag
  refine exists_congr fun body => ?_
  have hend : (readVarintFrom 64 0 0 body).1 = .endOfInput ↔
      (∀ b ∈ body, 128 ≤ b.toNat) ∧ 0 + 7 * body.length < 64 :=
    readVarintFrom_endOfInput (by decide)
  have hlen : 0 + 7 * body.length < 64 ↔ body.length ≤ 9 := by omega
  rw [base58Decode_eq_some, readVarint, hend, hlen, and_comm (a := body.length ≤ 9)]

/-- An address decodes to what it was made from; what decodes is the address of
the outcome unless its tag is cut off. -/
theorem decodeAddr_canonical_iff :
    (∀ tag data, ∃ addr, encodeAddr cnFastHash tag data = some addr ∧
      decodeAddr cnFastHash addr = some (tag, data)) ∧
    ∀ addr, (∀ tag data, decodeAddr cnFastHash addr = some (tag, data) →
        encodeAddr cnFastHash tag data = some addr) ↔ ¬CutTag cnFastHash addr := by
  refine ⟨fun tag data => ?_, fun addr => ⟨fun h hcut => ?_, fun hcut tag data h => ?_⟩⟩
  · obtain ⟨addr, haddr⟩ := base58Encode_ok
      (writeVarint tag.toNat ++ data ++ addrChecksum cnFastHash (writeVarint tag.toNat ++ data))
    refine ⟨addr, haddr, (decodeAddr_eq_some cnFastHash addr tag data).2 ?_⟩
    refine ⟨_, (base58Decode_eq_some _ _).2 haddr, fun hnil => ?_, .inl (readVarint_writeVarint _ _)⟩
    have hread := readVarint_writeVarint tag data
    rw [hnil] at hread
    cases hread
  · -- what was read of the tag is written in full
    obtain ⟨body, hdecode, hbody, hend⟩ := (cutTag_iff cnFastHash addr).1 hcut
    obtain ⟨⟨e, n, rest⟩, hread⟩ : ∃ r, readVarint 64 body = r := ⟨_, rfl⟩
    obtain rfl : e = .endOfInput := by rw [← hend, hread]
    have hlt : (readVarint 64 body).2.1 < 2 ^ 64 :=
      readVarintFrom_lt body (Nat.zero_le 64) (by decide)
    rw [hread] at hlt
    have htag : (UInt64.ofNat n).toNat = n := UInt64.toNat_ofNat_of_lt' hlt
    have hcanon := h (UInt64.ofNat n) rest ((decodeAddr_eq_some cnFastHash addr _ _).2
      ⟨body, hdecode, hbody, .inr (by rw [htag, hread])⟩)
    have hagain := (base58Decode_eq_some _ _).2 hcanon
    have hlen : (addrChecksum cnFastHash body).length =
        (addrChecksum cnFastHash (writeVarint (UInt64.ofNat n).toNat ++ rest)).length := by
      rw [length_addrChecksum, length_addrChecksum]
    have hsame := (List.append_inj' (Option.some_inj.1 (hdecode.symm.trans hagain)) hlen).1
    have hdone := readVarint_writeVarint (UInt64.ofNat n) rest
    rw [← hsame, hread] at hdone
    cases hdone
  · obtain ⟨body, hdecode, hbody, hread | hread⟩ := (decodeAddr_eq_some cnFastHash addr tag data).1 h
    · obtain ⟨-, rfl⟩ := eq_writeVarint_of_done hread
      exact (base58Decode_eq_some _ _).1 hdecode
    · refine absurd ((cutTag_iff cnFastHash addr).2 ⟨body, hdecode, hbody, ?_⟩) hcut
      rw [hread]

end

/-! ## A tag that is cut off -/

/-- A hash for trying things out: the sum of the bytes. -/
def byteSum (buf : Blob) : Hash := BitVec.ofNat 256 (buf.map UInt8.toNat).sum

/-- The single byte `80` and its checksum, in letters. -/
def cutAddr : Blob := (base58Encode [0x80, 0x80, 0, 0, 0]).getD []

/-- The address of tag 0 without data is another one. -/
theorem cut_tag_accepted :
    decodeAddr byteSum cutAddr = some (0, []) ∧ encodeAddr byteSum 0 [] ≠ some cutAddr := by
  have hcut : base58Encode ([0x80] ++ addrChecksum byteSum [0x80]) = some cutAddr := by decide
  refine ⟨(decodeAddr_eq_some byteSum cutAddr 0 []).2
    ⟨[0x80], (base58Decode_eq_some _ _).2 hcut, by decide, .inr (by decide)⟩, by decide⟩

end DarknetSpace
