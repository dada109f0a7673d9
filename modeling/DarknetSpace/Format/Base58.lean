import DarknetSpace.Format.Archive
import DarknetSpace.Format.IntUtil
import Mathlib.Data.Nat.Digits.Lemmas

/-!
# Base58 (`common/base58.cpp`)

Blocks of up to eight bytes, each read as a big-endian number and written with
as many letters as the largest number of its size needs. The loops run in 64
bits: the writer trusts its number to fit its block, the reader tests every sum
and product, and the last test is against the size that the letters stand for.

`Spells` says what number a row of letters spells, most significant first, as the
mathematics has it. A block is then one number in two systems: `encodeBlock_spells` for
writing and `decodeBlockLoop_spells` for reading, where the tests of the reader are just
that the number has 64 bits. The size of the last block can be told from its letters,
and the blocks are put together by induction on their number (`decodeBlocks_eq_some`).

Main result: `base58_bijection`, from both sides: what is written is read back, and
nothing else is read as the same bytes.
-/

namespace DarknetSpace

/-! ## The tables -/

/-- The digits and the letters, without `0`, `I`, `O` and `l`. -/
def alphabet : List UInt8 :=
  "123456789ABCDEFGHJKLMNPQRSTUVWXYZabcdefghijkmnopqrstuvwxyz".toList.map
    fun c => UInt8.ofNat c.toNat

/-- `alphabet_size` -/
def alphabetSize : Nat := 58

/-- `encoded_block_sizes`: letters needed for a block of so many bytes. -/
def encodedBlockSizes : List Nat := [0, 2, 3, 5, 6, 7, 9, 10, 11]

/-- `full_block_size` -/
def fullBlockSize : Nat := 8

/-- `full_encoded_block_size` -/
def fullEncodedBlockSize : Nat := 11

/-- `alphabet[i]`. -/
def letter (i : Nat) : UInt8 := alphabet.getD i 0

/-- `encoded_block_sizes[size]`. -/
def encodedBlockSize (size : Nat) : Nat := encodedBlockSizes.getD size 0

/-- `m_data` as the constructor of `reverse_alphabet` leaves it. -/
def reverseAlphabetData : List Int :=
  (List.range alphabetSize).foldl
    (fun data i => data.set ((letter i).toNat - (letter 0).toNat) (i : Int))
    (List.replicate ((letter 57).toNat - (letter 0).toNat + 1) (-1))

/-- `reverse_alphabet::operator()`: in front of the first letter the index wraps
around and is past the table, as it is for a byte with the top bit, a negative
`char`. -/
def reverseAlphabet (c : UInt8) : Int :=
  if c < 128 ∧ letter 0 ≤ c then reverseAlphabetData.getD (c.toNat - (letter 0).toNat) (-1) else -1

/-- `m_data` as the constructor of `decoded_block_sizes` leaves it. -/
def decodedBlockSizesData : List Int :=
  (List.range (fullBlockSize + 1)).foldl (fun data i => data.set (encodedBlockSize i) (i : Int))
    (List.replicate (fullEncodedBlockSize + 1) (-1))

/-- `decoded_block_sizes::operator()`. -/
def decodedBlockSize (encodedBlockSize : Nat) : Int :=
  decodedBlockSizesData.getD encodedBlockSize (-1)

/-! ## One block -/

/-- The `switch` of `uint_8be_to_64` enters at the first byte and falls through. -/
def uint8beTo64 (data : Blob) : UInt64 :=
  data.foldl (fun res b => res <<< 8 ||| b.toUInt64) 0

/-- The last `size` bytes of the swapped number. -/
def uint64To8be (num : UInt64) (size : Nat) : Blob :=
  (bytesOfPod 8 num.toNat).reverse.drop (8 - size)

/-- The loop of `encode_block` with `i + 1` letters still in front of it; `none`
is a write in front of the block. -/
def encodeBlockLoop : Nat → UInt64 → Blob → Option Blob
  | i, num, res =>
    if 0 < num then
      match i with
      | 0 => none
      | i + 1 => encodeBlockLoop i (num / 58) (res.set i (letter (num % 58).toNat))
    else some res

/-- `encode_block` -/
def encodeBlock (block : Blob) : Option Blob :=
  encodeBlockLoop (encodedBlockSize block.length) (uint8beTo64 block)
    (List.replicate (encodedBlockSize block.length) (letter 0))

/-- The loop of `decode_block`, from the last letter of the block to the first. -/
def decodeBlockLoop : Blob → UInt64 → UInt64 → Option UInt64
  | [], resNum, _ => some resNum
  | c :: rest, resNum, order =>
    let digit := reverseAlphabet c
    if digit < 0 then none
    else
      let product := mul128 order (UInt64.ofNat digit.toNat)
      let tmp := resNum + product.1
      if tmp < resNum ∨ product.2 ≠ 0 then none else decodeBlockLoop rest tmp (order * 58)

/-- `decode_block` -/
def decodeBlock (block : Blob) : Option Blob :=
  let resSize := decodedBlockSize block.length
  if resSize ≤ 0 then none
  else
    match decodeBlockLoop block.reverse 0 1 with
    | none => none
    | some resNum =>
      if resSize.toNat < fullBlockSize ∧ 2 ^ (8 * resSize.toNat) ≤ resNum.toNat then none
      else some (uint64To8be resNum resSize.toNat)

/-! ## The string -/

/-- The loop over the full blocks and the last block behind it. -/
def encodeBlocks : Nat → Blob → Option Blob
  | 0, data => if 0 < data.length then encodeBlock data else some []
  | n + 1, data =>
    match encodeBlock (data.take fullBlockSize) with
    | none => none
    | some block => (encodeBlocks n (data.drop fullBlockSize)).map fun res => block ++ res

/-- `encode` -/
def base58Encode (data : Blob) : Option Blob :=
  if data = [] then some [] else encodeBlocks (data.length / fullBlockSize) data

/-- The loop over the full blocks and the last block behind it. -/
def decodeBlocks : Nat → Blob → Option Blob
  | 0, enc => if 0 < enc.length then decodeBlock enc else some []
  | n + 1, enc =>
    match decodeBlock (enc.take fullEncodedBlockSize) with
    | none => none
    | some block => (decodeBlocks n (enc.drop fullEncodedBlockSize)).map fun data => block ++ data

/-- `decode` -/
def base58Decode (enc : Blob) : Option Blob :=
  if enc = [] then some []
  else if decodedBlockSize (enc.length % fullEncodedBlockSize) < 0 then none
  else decodeBlocks (enc.length / fullEncodedBlockSize) enc

/-! ## What the tables say -/

-- a string is slow to take apart, and is to be taken apart once

/-- The letters, as a table to compute with. -/
theorem letter_eq (i : Nat) : letter i = ([
    49, 50, 51, 52, 53, 54, 55, 56, 57, 65, 66, 67, 68, 69, 70, 71, 72, 74, 75, 76, 77, 78, 80,
    81, 82, 83, 84, 85, 86, 87, 88, 89, 90, 97, 98, 99, 100, 101, 102, 103, 104, 105, 106, 107,
    109, 110, 111, 112, 113, 114, 115, 116, 117, 118, 119, 120, 121, 122] : Blob).getD i 0 := by
  have halphabet : alphabet = [
      49, 50, 51, 52, 53, 54, 55, 56, 57, 65, 66, 67, 68, 69, 70, 71, 72, 74, 75, 76, 77, 78, 80,
      81, 82, 83, 84, 85, 86, 87, 88, 89, 90, 97, 98, 99, 100, 101, 102, 103, 104, 105, 106, 107,
      109, 110, 111, 112, 113, 114, 115, 116, 117, 118, 119, 120, 121, 122] := by
    decide
  unfold letter
  rw [halphabet]

/-- The table of the letters' values. -/
theorem reverseAlphabetData_eq : reverseAlphabetData = [
    0, 1, 2, 3, 4, 5, 6, 7, 8, -1, -1, -1, -1, -1, -1, -1, 9, 10, 11, 12, 13, 14, 15, 16, -1, 17,
    18, 19, 20, 21, -1, 22, 23, 24, 25, 26, 27, 28, 29, 30, 31, 32, -1, -1, -1, -1, -1, -1, 33,
    34, 35, 36, 37, 38, 39, 40, 41, 42, 43, -1, 44, 45, 46, 47, 48, 49, 50, 51, 52, 53, 54, 55,
    56, 57] := by
  unfold reverseAlphabetData
  simp only [letter_eq]
  decide

/-- A byte has no value, or is the letter of its value. -/
theorem reverseAlphabet_cases (c : UInt8) :
    reverseAlphabet c = -1 ∨ ∃ d : Nat, d < 58 ∧ reverseAlphabet c = d ∧ c = letter d := by
  have hall : ∀ n : Fin 256, reverseAlphabet (UInt8.ofNat n.val) = -1 ∨
      (reverseAlphabet (UInt8.ofNat n.val)).toNat < 58 ∧ 0 ≤ reverseAlphabet (UInt8.ofNat n.val) ∧
        UInt8.ofNat n.val = letter (reverseAlphabet (UInt8.ofNat n.val)).toNat := by
    unfold reverseAlphabet
    simp only [reverseAlphabetData_eq, letter_eq]
    decide +kernel
  have h := hall ⟨c.toNat, c.toNat_lt⟩
  simp only [UInt8.ofNat_toNat] at h
  rcases h with hno | ⟨hlt, hpos, hc⟩
  · exact .inl hno
  · exact .inr ⟨_, hlt, (Int.toNat_of_nonneg hpos).symm, hc⟩

theorem reverseAlphabet_letter {d : Nat} (h : d < 58) : reverseAlphabet (letter d) = (d : Int) := by
  have hall : ∀ d < 58, reverseAlphabet (letter d) = (d : Int) := by
    unfold reverseAlphabet
    simp only [reverseAlphabetData_eq, letter_eq]
    decide
  exact hall d h

theorem letter_inj {d e : Nat} (hd : d < 58) (he : e < 58) (h : letter d = letter e) : d = e := by
  have hrev : ((d : Nat) : Int) = e := by
    rw [← reverseAlphabet_letter hd, h, reverseAlphabet_letter he]
  exact Int.ofNat.inj hrev

theorem decodedBlockSize_encodedBlockSize {r : Nat} (h : r ≤ 8) :
    decodedBlockSize (encodedBlockSize r) = (r : Int) := by
  have hall : ∀ r ≤ 8, decodedBlockSize (encodedBlockSize r) = (r : Int) := by decide
  exact hall r h

/-- A length that has bytes to stand for is one of the nine. -/
theorem decodedBlockSize_eq {m : Nat} (h : 0 ≤ decodedBlockSize m) :
    ∃ r ≤ 8, m = encodedBlockSize r ∧ decodedBlockSize m = (r : Int) := by
  by_cases hm : m < 12
  · have hall : ∀ m < 12, 0 ≤ decodedBlockSize m →
        ∃ r ≤ 8, m = encodedBlockSize r ∧ decodedBlockSize m = (r : Int) := by decide
    exact hall m hm h
  · have hout : decodedBlockSize m = -1 := by
      have hlen : decodedBlockSizesData.length = 12 := by decide
      unfold decodedBlockSize
      rw [List.getD_eq_getElem?_getD, List.getElem?_eq_none (by omega)]
      rfl
    omega

theorem bytes_lt_letters {r : Nat} (h : r ≤ 8) : 256 ^ r ≤ 58 ^ encodedBlockSize r := by
  have hall : ∀ r ≤ 8, 256 ^ r ≤ 58 ^ encodedBlockSize r := by decide
  exact hall r h

theorem encodedBlockSize_le {r : Nat} (h : r ≤ 8) : encodedBlockSize r ≤ 11 := by
  have hall : ∀ r ≤ 8, encodedBlockSize r ≤ 11 := by decide
  exact hall r h

/-! ## Numbers in bytes -/

/-- One more byte behind a number that leaves room for it. -/
theorem shiftOr_toNat {res : UInt64} {b : UInt8} (h : res.toNat < 2 ^ 56) :
    (res <<< 8 ||| b.toUInt64).toNat = 256 * res.toNat + b.toNat := by
  have hb : b.toUInt64.toNat < 2 ^ 8 := b.toNat_lt
  have hshift : (res <<< 8).toNat = res.toNat <<< 8 := by
    rw [UInt64.toNat_shiftLeft]
    show (res.toNat <<< 8) % 2 ^ 64 = _
    rw [Nat.shiftLeft_eq]
    omega
  rw [UInt64.toNat_or, hshift, ← Nat.shiftLeft_add_eq_or_of_lt hb, Nat.shiftLeft_eq,
    UInt8.toNat_toUInt64]
  omega

/-- The big-endian number of up to eight bytes. -/
theorem uint8beTo64_toNat {data : Blob} (h : data.length ≤ 8) :
    (uint8beTo64 data).toNat = podOfBytes data.reverse := by
  unfold uint8beTo64
  induction data using List.reverseRecOn with
  | nil => rfl
  | append_singleton rest b ih =>
    rw [List.length_append, List.length_singleton] at h
    have hrest := ih (by omega)
    have hlt : podOfBytes rest.reverse < 2 ^ 56 := by
      refine Nat.lt_of_lt_of_le (podOfBytes_lt _) ?_
      rw [List.length_reverse]
      calc 256 ^ rest.length ≤ 256 ^ 7 := Nat.pow_le_pow_right (by omega) (by omega)
        _ = 2 ^ 56 := by decide
    rw [List.foldl_append, List.foldl_cons, List.foldl_nil, shiftOr_toNat (by omega), hrest,
      List.reverse_append, List.reverse_singleton, List.singleton_append]
    show _ = b.toNat + 256 * podOfBytes rest.reverse
    omega

/-- The low bytes of a number are those of the number cut short. -/
theorem bytesOfPod_take {n m : Nat} (v : Nat) (h : n ≤ m) :
    (bytesOfPod m v).take n = bytesOfPod n v := by
  induction n generalizing m v with
  | zero => rfl
  | succ n ih =>
    obtain ⟨m, rfl⟩ : ∃ m', m = m' + 1 := ⟨m - 1, by omega⟩
    unfold bytesOfPod
    rw [List.take_succ_cons, ih _ (by omega)]

theorem uint64To8be_eq {num : UInt64} {size : Nat} (h : size ≤ 8) :
    uint64To8be num size = (bytesOfPod size num.toNat).reverse := by
  unfold uint64To8be
  rw [List.drop_reverse, bytesOfPod_length, Nat.sub_sub_self h, bytesOfPod_take _ h]

/-! ## Numbers in letters -/

/-- The letters are the digits of the number, the first letter the highest. -/
def Spells (s : Blob) (num : Nat) : Prop :=
  ∃ digits : List Nat, (∀ d ∈ digits, d < 58) ∧ Nat.ofDigits 58 digits = num ∧
    s.reverse = digits.map letter

/-- A number has one spelling of each length. -/
theorem Spells.unique {s s' : Blob} {num : Nat} (h : Spells s num) (h' : Spells s' num)
    (hlen : s.length = s'.length) : s = s' := by
  obtain ⟨digits, hlt, hnum, hs⟩ := h
  obtain ⟨digits', hlt', hnum', hs'⟩ := h'
  have hdlen : digits.length = digits'.length := by
    rw [← List.length_map (f := letter), ← hs, List.length_reverse, hlen,
      ← List.length_reverse, hs', List.length_map]
  have hdigits : digits = digits' :=
    Nat.ofDigits_inj_of_len_eq (by omega) hdlen hlt hlt' (hnum.trans hnum'.symm)
  rw [← List.reverse_inj, hs, hs', hdigits]

/-- The writer stays inside its letters and spells the number with all of them. -/
theorem encodeBlockLoop_spells (i : Nat) (num : UInt64) (res : Blob)
    (hnum : num.toNat < 58 ^ i) (hi : i ≤ res.length)
    (hres : res.take i = List.replicate i (letter 0)) :
    ∃ front, encodeBlockLoop i num res = some (front ++ res.drop i) ∧ front.length = i ∧
      Spells front num.toNat := by
  induction i generalizing num res with
  | zero =>
    have hzero : ¬ 0 < num := by
      rw [UInt64.lt_iff_toNat_lt]
      show ¬ 0 < num.toNat
      omega
    unfold encodeBlockLoop
    rw [if_neg hzero]
    refine ⟨[], rfl, rfl, [], nofun, ?_, rfl⟩
    rw [Nat.ofDigits_nil]
    omega
  | succ i ih =>
    unfold encodeBlockLoop
    by_cases hpos : 0 < num
    · rw [if_pos hpos]
      have hdiv : (num / 58).toNat = num.toNat / 58 := UInt64.toNat_div _ _
      have hmod : (num % 58).toNat = num.toNat % 58 := UInt64.toNat_mod _ _
      have hlen : (res.set i (letter (num % 58).toNat)).length = res.length := List.length_set
      have hquot : (num / 58).toNat < 58 ^ i := by
        rw [hdiv]
        exact Nat.div_lt_of_lt_mul (by rwa [Nat.pow_succ, Nat.mul_comm] at hnum)
      have htake : (res.set i (letter (num % 58).toNat)).take i =
          List.replicate i (letter 0) := by
        rw [List.take_set_of_le (Nat.le_refl i)]
        have h := congrArg (List.take i) hres
        rw [List.take_take, List.take_replicate, Nat.min_eq_left (Nat.le_succ i)] at h
        exact h
      obtain ⟨front, heq, hfront, digits, hlt, hval, hspell⟩ := ih _ _ hquot (by omega) htake
      have hdrop : (res.set i (letter (num % 58).toNat)).drop i =
          letter (num % 58).toNat :: res.drop (i + 1) := by
        rw [List.drop_eq_getElem_cons (by omega), List.getElem_set_self,
          List.drop_set_of_lt (Nat.lt_succ_self i)]
      refine ⟨front ++ [letter (num % 58).toNat], ?_, ?_, (num % 58).toNat :: digits, ?_, ?_, ?_⟩
      · rw [List.append_assoc, List.singleton_append, ← hdrop]
        exact heq
      · rw [List.length_append, List.length_singleton, hfront]
      · intro d hd
        rcases List.mem_cons.1 hd with rfl | hd
        · rw [hmod]
          exact Nat.mod_lt _ (by omega)
        · exact hlt d hd
      · rw [Nat.ofDigits_cons, hval, hdiv, hmod]
        exact Nat.mod_add_div _ _
      · rw [List.reverse_append, List.reverse_singleton, List.singleton_append, hspell,
          List.map_cons]
    · rw [if_neg hpos]
      have hzero : num.toNat = 0 := by
        rw [UInt64.lt_iff_toNat_lt] at hpos
        exact Nat.eq_zero_of_not_pos hpos
      -- the letters in front stay what the string was filled with
      refine ⟨res.take (i + 1), ?_, ?_, List.replicate (i + 1) 0, ?_, ?_, ?_⟩
      · rw [List.take_append_drop]
      · rw [List.length_take]
        omega
      · intro d hd
        rw [List.eq_of_mem_replicate hd]
        omega
      · rw [Nat.ofDigits_replicate_zero, hzero]
      · rw [hres, List.reverse_replicate, List.map_replicate]

/-- The test of `decode_block` catches every sum that does not fit. -/
theorem sumOverflows_iff (resNum lo hi : UInt64) :
    (resNum + lo < resNum ∨ hi ≠ 0) ↔ 2 ^ 64 ≤ resNum.toNat + Words.two lo hi := by
  have hcarry := Words.cadd_iff resNum lo
  unfold Words.cadd at hcarry
  rw [decide_eq_true_iff] at hcarry
  unfold Words.two
  by_cases hhi : hi = 0
  · have hzero : hi.toNat = 0 := by rw [hhi]; rfl
    rw [hcarry, hzero]
    simp only [hhi, ne_eq, not_true_eq_false, or_false, Nat.mul_zero, Nat.add_zero]
  · have hpos : hi.toNat ≠ 0 := fun h => hhi (UInt64.toNat_inj.1 h)
    exact ⟨fun _ => by omega, fun _ => Or.inr hhi⟩

/-- The reader gets what is spelled, and refuses a letter that is none and a
number that does not fit. -/
theorem decodeBlockLoop_eq_some (k : Nat) (s : Blob) (resNum order v : UInt64)
    (hk : k + s.length ≤ 11) (horder : k ≤ 10 → order.toNat = 58 ^ k) :
    decodeBlockLoop s resNum order = some v ↔
      ∃ digits : List Nat, (∀ d ∈ digits, d < 58) ∧ s = digits.map letter ∧
        v.toNat = resNum.toNat + 58 ^ k * Nat.ofDigits 58 digits := by
  induction s generalizing k resNum order with
  | nil =>
    unfold decodeBlockLoop
    rw [Option.some_inj]
    constructor
    · rintro rfl
      exact ⟨[], nofun, rfl, rfl⟩
    · rintro ⟨digits, -, hs, hv⟩
      rw [List.map_eq_nil_iff.1 hs.symm, Nat.ofDigits_nil] at hv
      exact UInt64.toNat_inj.1 hv.symm
  | cons c rest ih =>
    rw [List.length_cons] at hk
    unfold decodeBlockLoop
    rcases reverseAlphabet_cases c with hno | ⟨d, hd, hdigit, rfl⟩
    · rw [hno]
      refine ⟨nofun, ?_⟩
      rintro ⟨digits, hlt, hs, -⟩
      match digits, hs, hlt with
      | e :: es, hs, hlt =>
        have he := hlt e List.mem_cons_self
        rw [(List.cons.inj hs).1, reverseAlphabet_letter he] at hno
        omega
    · have hord := horder (by omega)
      have hneg : ¬ ((d : Nat) : Int) < 0 := by omega
      have hdword : (UInt64.ofNat d).toNat = d := UInt64.toNat_ofNat_of_lt' (by
        show d < 2 ^ 64
        omega)
      rw [hdigit]
      simp only
      rw [if_neg hneg, Int.toNat_natCast]
      -- the order never wraps within a block, so the two words hold the exact product
      have hproduct : Words.two (mul128 order (UInt64.ofNat d)).1 (mul128 order (UInt64.ofNat d)).2
          = 58 ^ k * d := by
        rw [← hord]
        exact (Words.mulWide_eq order (UInt64.ofNat d)).trans (by rw [hdword])
      have hover := sumOverflows_iff resNum (mul128 order (UInt64.ofNat d)).1
        (mul128 order (UInt64.ofNat d)).2
      rw [hproduct] at hover
      by_cases hfits : resNum.toNat + 58 ^ k * d < 2 ^ 64
      · have hno := mt hover.1 (by omega)
        have hsum : (resNum + (mul128 order (UInt64.ofNat d)).1).toNat =
            resNum.toNat + 58 ^ k * d := by
          have hhi : (mul128 order (UInt64.ofNat d)).2 = 0 := not_not.1 (not_or.1 hno).2
          rw [hhi] at hproduct
          have hlo : (mul128 order (UInt64.ofNat d)).1.toNat = 58 ^ k * d := hproduct
          rw [UInt64.toNat_add, hlo]
          exact Nat.mod_eq_of_lt hfits
        -- 58 ^ 10 is the last power a block of eleven letters asks for
        have hnext : k + 1 ≤ 10 → (order * 58).toNat = 58 ^ (k + 1) := by
          intro hle
          have hlt : 58 ^ (k + 1) < 2 ^ 64 :=
            calc 58 ^ (k + 1) ≤ 58 ^ 10 := Nat.pow_le_pow_right (by omega) hle
              _ < 2 ^ 64 := by decide
          rw [UInt64.toNat_mul, hord]
          exact Nat.mod_eq_of_lt hlt
        rw [if_neg hno, ih (k + 1) _ _ (by omega) hnext, hsum]
        constructor
        · rintro ⟨digits, hlt, rfl, hv⟩
          refine ⟨d :: digits, ?_, rfl, ?_⟩
          · intro e he
            rcases List.mem_cons.1 he with rfl | he
            · exact hd
            · exact hlt e he
          · rw [hv, Nat.ofDigits_cons, Nat.pow_succ, Nat.mul_add]
            ring
        · rintro ⟨digits, hlt, hs, hv⟩
          match digits, hs, hlt, hv with
          | e :: es, hs, hlt, hv =>
            obtain rfl := letter_inj hd (hlt e List.mem_cons_self) (List.cons.inj hs).1
            refine ⟨es, fun e he => hlt e (List.mem_cons_of_mem _ he), (List.cons.inj hs).2, ?_⟩
            rw [hv, Nat.ofDigits_cons, Nat.pow_succ, Nat.mul_add]
            ring
      -- an overflow here stays one: the digits behind only add to the value
      · rw [if_pos (hover.2 (by omega))]
        refine ⟨nofun, ?_⟩
        rintro ⟨digits, hlt, hs, hv⟩
        match digits, hs, hlt, hv with
        | e :: es, hs, hlt, hv =>
          obtain rfl := letter_inj hd (hlt e List.mem_cons_self) (List.cons.inj hs).1
          have hle : 58 ^ k * d ≤ 58 ^ k * Nat.ofDigits 58 (d :: es) := by
            rw [Nat.ofDigits_cons]
            exact Nat.mul_le_mul_left _ (Nat.le_add_right _ _)
          have hvlt := v.toNat_lt
          omega

/-- The loop finds the number that is spelt, if it has 64 bits. -/
theorem decodeBlockLoop_spells {s : Blob} (h : s.length ≤ 11) (v : UInt64) :
    decodeBlockLoop s.reverse 0 1 = some v ↔ Spells s v.toNat := by
  rw [decodeBlockLoop_eq_some 0 s.reverse 0 1 v (by rw [List.length_reverse]; omega) fun _ => rfl]
  unfold Spells
  constructor
  · rintro ⟨digits, hlt, hs, hv⟩
    refine ⟨digits, hlt, ?_, hs⟩
    rw [hv, Nat.pow_zero, Nat.one_mul]
    exact (Nat.zero_add _).symm
  · rintro ⟨digits, hlt, hv, hs⟩
    refine ⟨digits, hlt, hs, ?_⟩
    rw [← hv, Nat.pow_zero, Nat.one_mul]
    exact (Nat.zero_add _).symm

/-! ## One block there and back -/

/-- What is written for a block spells its number, in as many letters as its size asks for. -/
theorem encodeBlock_spells {block : Blob} (h : block.length ≤ 8) :
    ∃ s, encodeBlock block = some s ∧ s.length = encodedBlockSize block.length ∧
      Spells s (podOfBytes block.reverse) := by
  have hnum := uint8beTo64_toNat h
  have hlt : (uint8beTo64 block).toNat < 58 ^ encodedBlockSize block.length := by
    refine Nat.lt_of_lt_of_le ?_ (bytes_lt_letters h)
    rw [hnum, ← List.length_reverse]
    exact podOfBytes_lt _
  obtain ⟨s, heq, hlen, hspells⟩ := encodeBlockLoop_spells (encodedBlockSize block.length)
    (uint8beTo64 block) (List.replicate (encodedBlockSize block.length) (letter 0)) hlt
    (by rw [List.length_replicate]) (by rw [List.take_replicate, Nat.min_self])
  refine ⟨s, ?_, hlen, hnum ▸ hspells⟩
  unfold encodeBlock
  rw [heq, List.drop_of_length_le (by rw [List.length_replicate]), List.append_nil]

/-- What is read of a block is exactly what the writer has put there. -/
theorem decodeBlock_eq_some {s block : Blob} (hs : s.length ≤ 11) :
    decodeBlock s = some block ↔
      0 < block.length ∧ block.length ≤ 8 ∧ encodeBlock block = some s := by
  unfold decodeBlock
  simp only
  constructor
  · intro h
    by_cases hsize : decodedBlockSize s.length ≤ 0
    · rw [if_pos hsize] at h
      cases h
    · rw [if_neg hsize] at h
      obtain ⟨r, hr, hlen, hrs⟩ := decodedBlockSize_eq (Int.le_of_lt (Int.not_le.1 hsize))
      rw [hrs] at h hsize
      cases hloop : decodeBlockLoop s.reverse 0 1 with
      | none =>
        rw [hloop] at h
        cases h
      | some resNum =>
        rw [hloop] at h
        simp only [Int.toNat_natCast] at h
        split at h
        · cases h
        · rename_i hfit
          cases h
          -- the check on the number is left out for a full block, where every word fits
          have hlt : resNum.toNat < 256 ^ r := by
            have hpow : (256 : Nat) ^ r = 2 ^ (8 * r) := by rw [Nat.pow_mul]
            rcases Nat.lt_or_ge r 8 with hlt | hge
            · rw [hpow]
              exact Nat.not_le.1 fun hle => hfit ⟨hlt, hle⟩
            · obtain rfl : r = 8 := by omega
              exact resNum.toNat_lt
          have hblock : (uint64To8be resNum r).length = r := by
            rw [uint64To8be_eq hr, List.length_reverse, bytesOfPod_length]
          obtain ⟨s', heq, hlen', hspells⟩ :=
            encodeBlock_spells (by omega : (uint64To8be resNum r).length ≤ 8)
          rw [hblock] at hlen'
          rw [uint64To8be_eq hr, List.reverse_reverse, podOfBytes_bytesOfPod hlt] at hspells
          refine ⟨by omega, by omega, ?_⟩
          rw [heq, ((decodeBlockLoop_spells hs resNum).1 hloop).unique hspells (by omega)]
  · rintro ⟨hpos, hle, h⟩
    obtain ⟨s', heq, hlen, hspells⟩ := encodeBlock_spells hle
    obtain rfl : s' = s := Option.some_inj.1 (heq.symm.trans h)
    have hlt := podOfBytes_lt block.reverse
    rw [List.length_reverse] at hlt
    have hword : podOfBytes block.reverse < 2 ^ 64 := by
      refine Nat.lt_of_lt_of_le hlt ?_
      calc 256 ^ block.length ≤ 256 ^ 8 := Nat.pow_le_pow_right (by omega) hle
        _ = 2 ^ 64 := by decide
    have hnum : (UInt64.ofNat (podOfBytes block.reverse)).toNat = podOfBytes block.reverse :=
      UInt64.toNat_ofNat_of_lt' hword
    rw [hlen, decodedBlockSize_encodedBlockSize hle, if_neg (by omega),
      (decodeBlockLoop_spells hs (UInt64.ofNat (podOfBytes block.reverse))).2
        (by rw [hnum]; exact hspells)]
    simp only [Int.toNat_natCast]
    rw [if_neg, uint64To8be_eq hle, hnum, ← List.length_reverse, bytesOfPod_podOfBytes,
      List.reverse_reverse]
    rw [hnum, Nat.pow_mul]
    rintro ⟨-, hge⟩
    have hlt' : podOfBytes block.reverse < (2 ^ 8) ^ block.length := hlt
    omega

theorem encodeBlock_length {block s : Blob} (hle : block.length ≤ 8)
    (h : encodeBlock block = some s) : s.length = encodedBlockSize block.length := by
  obtain ⟨s', heq, hlen, -⟩ := encodeBlock_spells hle
  obtain rfl : s' = s := Option.some_inj.1 (heq.symm.trans h)
  exact hlen

/-! ## The string there and back -/

theorem encodedBlockSize_bounds {r : Nat} (h : r ≤ 8) :
    (0 < r → 0 < encodedBlockSize r) ∧ (encodedBlockSize r = 11 ↔ r = 8) := by
  have hall : ∀ r ≤ 8, (0 < r → 0 < encodedBlockSize r) ∧ (encodedBlockSize r = 11 ↔ r = 8) := by
    decide
  exact hall r h

/-- Every block of the writer is full of letters but the last one. -/
theorem encodeBlocks_ok (n : Nat) {data : Blob} (h : data.length / 8 = n) :
    ∃ s, encodeBlocks n data = some s ∧ s.length = 11 * n + encodedBlockSize (data.length % 8) := by
  induction n generalizing data with
  | zero =>
    unfold encodeBlocks
    by_cases hpos : 0 < data.length
    · rw [if_pos hpos]
      obtain ⟨s, heq, hlen, -⟩ := encodeBlock_spells (by omega : data.length ≤ 8)
      rw [Nat.mod_eq_of_lt (by omega)]
      exact ⟨s, heq, by omega⟩
    · rw [if_neg hpos, Nat.eq_zero_of_not_pos hpos]
      exact ⟨[], rfl, rfl⟩
  | succ n ih =>
    have htake : (data.take 8).length = 8 := List.length_take_of_le (by omega)
    obtain ⟨s, heq, hlen, -⟩ := encodeBlock_spells (by omega : (data.take 8).length ≤ 8)
    have hrest : (data.drop 8).length / 8 = n := by
      rw [List.length_drop]
      omega
    obtain ⟨s', heq', hlen'⟩ := ih hrest
    unfold encodeBlocks fullBlockSize
    rw [heq, heq']
    refine ⟨s ++ s', rfl, ?_⟩
    have hfull : encodedBlockSize 8 = 11 := by decide
    have hmod : (data.drop 8).length % 8 = data.length % 8 := by
      rw [List.length_drop]
      omega
    rw [List.length_append, hlen, htake, hfull, hlen', hmod]
    omega

/-- The blocks are decoded just when encoding gives them back, by induction on their number. -/
theorem decodeBlocks_eq_some (n : Nat) {enc data : Blob} (henc : enc.length / 11 = n) :
    decodeBlocks n enc = some data ↔ data.length / 8 = n ∧ encodeBlocks n data = some enc := by
  induction n generalizing enc data with
  | zero =>
    unfold decodeBlocks encodeBlocks
    by_cases hpos : 0 < enc.length
    · rw [if_pos hpos, decodeBlock_eq_some (by omega)]
      constructor
      · rintro ⟨hdata, hle, h⟩
        have hlen := encodeBlock_length hle h
        -- a full block would take eleven letters, and fewer are left
        have hnot : data.length ≠ 8 := by
          intro height
          have hfull := (encodedBlockSize_bounds hle).2.2 height
          omega
        rw [if_pos hdata]
        exact ⟨by omega, h⟩
      · rintro ⟨hlt, h⟩
        by_cases hdata : 0 < data.length
        · rw [if_pos hdata] at h
          exact ⟨hdata, by omega, h⟩
        · rw [if_neg hdata] at h
          cases h
          cases hpos
    · rw [if_neg hpos, List.eq_nil_of_length_eq_zero (Nat.eq_zero_of_not_pos hpos)]
      constructor
      · intro h
        cases h
        exact ⟨rfl, rfl⟩
      · rintro ⟨hlt, h⟩
        by_cases hdata : 0 < data.length
        · rw [if_pos hdata] at h
          -- no block is written in no letters
          have hlen := encodeBlock_length (by omega) h
          have hsome := (encodedBlockSize_bounds (by omega : data.length ≤ 8)).1 hdata
          rw [List.length_nil] at hlen
          omega
        · rw [List.eq_nil_of_length_eq_zero (Nat.eq_zero_of_not_pos hdata)]
  | succ n ih =>
    have htake : (enc.take 11).length = 11 := List.length_take_of_le (by omega)
    have hrest : (enc.drop 11).length / 11 = n := by
      rw [List.length_drop]
      omega
    unfold decodeBlocks encodeBlocks fullBlockSize fullEncodedBlockSize
    constructor
    · intro h
      cases hblock : decodeBlock (enc.take 11) with
      | none =>
        rw [hblock] at h
        cases h
      | some block =>
        rw [hblock] at h
        obtain ⟨tail, htail, rfl⟩ := Option.map_eq_some_iff.1 h
        obtain ⟨-, hle, hencode⟩ := (decodeBlock_eq_some (by omega)).1 hblock
        have hlen := encodeBlock_length hle hencode
        have height := (encodedBlockSize_bounds hle).2.1 (by omega)
        obtain ⟨hdiv, hencodes⟩ := (ih hrest).1 htail
        rw [List.take_left' height, List.drop_left' height, hencode, hencodes]
        refine ⟨?_, ?_⟩
        · rw [List.length_append]
          omega
        · show some (enc.take 11 ++ enc.drop 11) = _
          rw [List.take_append_drop]
    · rintro ⟨hdiv, h⟩
      have height : (data.take 8).length = 8 := List.length_take_of_le (by omega)
      cases hblock : encodeBlock (data.take 8) with
      | none =>
        rw [hblock] at h
        cases h
      | some s =>
        rw [hblock] at h
        obtain ⟨tail, htail, rfl⟩ := Option.map_eq_some_iff.1 h
        have hlen := encodeBlock_length (by omega) hblock
        have hfull : encodedBlockSize 8 = 11 := by decide
        rw [height, hfull] at hlen
        rw [List.drop_left' hlen] at hrest
        have hdrop : (data.drop 8).length / 8 = n := by
          rw [List.length_drop]
          omega
        rw [List.take_left' hlen, List.drop_left' hlen,
          (decodeBlock_eq_some (by omega)).2 ⟨by omega, by omega, hblock⟩,
          (ih hrest).2 ⟨hdrop, htail⟩]
        show some (data.take 8 ++ data.drop 8) = _
        rw [List.take_append_drop]

/-- What data is spelled as is split where the data is. -/
theorem encodeBlocks_splits {data enc : Blob}
    (h : encodeBlocks (data.length / 8) data = some enc) :
    enc.length / 11 = data.length / 8 ∧ enc.length % 11 = encodedBlockSize (data.length % 8) := by
  obtain ⟨s, heq, hlen⟩ := encodeBlocks_ok _ (Eq.refl (data.length / 8))
  obtain rfl : s = enc := Option.some_inj.1 (heq.symm.trans h)
  have hle : data.length % 8 ≤ 8 := by omega
  have hsmall := encodedBlockSize_le hle
  have hfull := (encodedBlockSize_bounds hle).2
  omega

/-- **Decoding is the inverse of encoding**, and accepts nothing else. -/
theorem base58Decode_eq_some (enc data : Blob) :
    base58Decode enc = some data ↔ base58Encode data = some enc := by
  unfold base58Decode base58Encode fullBlockSize fullEncodedBlockSize
  by_cases henc : enc = []
  · rw [if_pos henc, henc]
    by_cases hdata : data = []
    · rw [if_pos hdata, hdata]
    · obtain ⟨s, heq, hlen⟩ := encodeBlocks_ok _ (Eq.refl (data.length / 8))
      have hpos := List.length_pos_of_ne_nil hdata
      rw [if_neg hdata, heq]
      refine ⟨fun h => absurd (Option.some_inj.1 h).symm hdata, fun h => ?_⟩
      cases h
      rw [List.length_nil] at hlen
      have hsome := (encodedBlockSize_bounds (by omega : data.length % 8 ≤ 8)).1 (by omega)
      omega
  · rw [if_neg henc]
    -- a last block of one, four or eight letters: no data is encoded to that length
    by_cases hsize : decodedBlockSize (enc.length % 11) < 0
    · rw [if_pos hsize]
      refine ⟨nofun, fun h => ?_⟩
      by_cases hdata : data = []
      · rw [if_pos hdata] at h
        exact absurd (Option.some_inj.1 h).symm henc
      · rw [if_neg hdata] at h
        rw [(encodeBlocks_splits h).2, decodedBlockSize_encodedBlockSize (by omega)] at hsize
        omega
    · rw [if_neg hsize, decodeBlocks_eq_some _ (Eq.refl (enc.length / 11))]
      have hpos := List.length_pos_of_ne_nil henc
      constructor
      · rintro ⟨hdiv, h⟩
        have hdata : data ≠ [] := by
          rintro rfl
          rw [List.length_nil] at hdiv
          rw [← hdiv] at h
          cases h
          exact henc rfl
        rw [if_neg hdata, hdiv]
        exact h
      · intro h
        by_cases hdata : data = []
        · rw [if_pos hdata] at h
          exact absurd (Option.some_inj.1 h).symm henc
        · rw [if_neg hdata] at h
          have hdiv := (encodeBlocks_splits h).1.symm
          exact ⟨hdiv, hdiv ▸ h⟩

theorem base58Encode_ok (data : Blob) : ∃ enc, base58Encode data = some enc := by
  unfold base58Encode
  split
  · exact ⟨[], rfl⟩
  · obtain ⟨enc, heq, -⟩ := encodeBlocks_ok _ (Eq.refl (data.length / 8))
    exact ⟨enc, heq⟩

/-- The writer never fails, what it writes is read back, and nothing else is
read as the same bytes. -/
theorem base58_bijection :
    (∀ data, ∃ enc, base58Encode data = some enc ∧ base58Decode enc = some data) ∧
      ∀ enc data, base58Decode enc = some data → base58Encode data = some enc := by
  refine ⟨fun data => ?_, fun enc data => (base58Decode_eq_some enc data).1⟩
  obtain ⟨enc, hencode⟩ := base58Encode_ok data
  exact ⟨enc, hencode, (base58Decode_eq_some enc data).2 hencode⟩

end DarknetSpace
