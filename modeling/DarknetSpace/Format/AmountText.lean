import DarknetSpace.Format.HexString
import Mathlib.Data.List.DropRight
import Mathlib.Data.Nat.Digits.Lemmas

/-!
# Amounts as text (`parse_amount`, `print_money`)

The point is taken out of the text and zeros are put behind it until there are ten
digits of the fraction; the digits are then a number of atomic units. Zeros beyond
the tenth place go first. A second point stays where it is and fails as a digit.

`DenotesAmount` says what a text stands for, without the reader's steps: digits with at
most one point among them, and a fraction of at most ten places that count. Main result:
`parseAmount_exact`. An amount that was printed is read again, and of all texts just
those are read that stand for an amount of 64 bits. The steps of the reader are lemmas
about the value of a row of digits: zeros in front and behind, one digit more, and the
ten places of the fraction.
-/

namespace DarknetSpace

def currencyDisplayDecimalPoint : Nat := 10

/-- `'0'` and `'.'`. -/
def zeroChar : UInt8 := 48
def pointChar : UInt8 := 46

/-- `isdigit`. -/
def isDigit (c : UInt8) : Bool := 48 ≤ c && c ≤ 57

/-- The number a string of digits stands for. -/
def decimalValue (s : Blob) : Nat := s.foldl (fun n c => n * 10 + (c.toNat - 48)) 0

/-- `get_xtype_from_string` for a `uint64_t`: nothing but digits, at least one of
them, and a number below `2^64`. -/
def getXtypeFromString (str : Blob) : Option UInt64 :=
  if str.all isDigit = true ∧ str ≠ [] ∧ decimalValue str < 2 ^ 64 then
    some (UInt64.ofNat (decimalValue str))
  else none

/-- `boost::algorithm::trim`. -/
def trim (s : Blob) : Blob := (s.dropWhile isSpace).rdropWhile isSpace

/-- The loop that takes zeros off the end while the fraction is too long: what is
left of its size and of the text. -/
def stripFraction : (fractionSize : Nat) → Blob → Nat × Blob
  | 0, str => (0, str)
  | fractionSize + 1, str =>
    if currencyDisplayDecimalPoint < fractionSize + 1 ∧ str.getLast? = some zeroChar then
      stripFraction fractionSize str.dropLast
    else (fractionSize + 1, str)

/-- `parse_amount`; nothing where it returns `false`. -/
def parseAmount (strAmount : Blob) : Option UInt64 :=
  let str := trim strAmount
  let read (fractionSize : Nat) (str : Blob) : Option UInt64 :=
    if str = [] then none
    else getXtypeFromString
      (str ++ List.replicate (currencyDisplayDecimalPoint - fractionSize) zeroChar)
  match str.findIdx? (· == pointChar) with
  | none => read 0 str
  | some pointIndex =>
    let stripped := stripFraction (str.length - pointIndex - 1) str
    if currencyDisplayDecimalPoint < stripped.1 then none
    else read stripped.1 (stripped.2.eraseIdx pointIndex)

/-- `std::to_string`. -/
def decimalText (n : Nat) : Blob :=
  if n = 0 then [zeroChar] else (Nat.digits 10 n).reverse.map fun d => UInt8.ofNat (48 + d)

def printMoney (amount : UInt64) : Blob :=
  let s := decimalText amount.toNat
  let s :=
    if s.length < currencyDisplayDecimalPoint + 1 then
      List.replicate (currencyDisplayDecimalPoint + 1 - s.length) zeroChar ++ s
    else s
  s.take (s.length - currencyDisplayDecimalPoint) ++
    pointChar :: s.drop (s.length - currencyDisplayDecimalPoint)

/-- A text that stands for `n` atomic units: digits, at least one, with a point
somewhere or none, nothing but zeros beyond the tenth place, and `n` is `10^10`
times the value. -/
def DenotesAmount (text : Blob) (n : Nat) : Prop :=
  ∃ integer fraction : Blob,
    (text = integer ∧ fraction = [] ∨ text = integer ++ pointChar :: fraction) ∧
    (∀ c ∈ integer ++ fraction, isDigit c = true) ∧ integer ++ fraction ≠ [] ∧
    (∀ c ∈ fraction.drop 10, c = zeroChar) ∧
    decimalValue (integer ++ fraction) * 10 ^ 10 = n * 10 ^ fraction.length

/-! ## Digits -/

theorem decimalValue_concat (s : Blob) (c : UInt8) :
    decimalValue (s ++ [c]) = decimalValue s * 10 + (c.toNat - 48) := by
  unfold decimalValue
  rw [List.foldl_append]
  rfl

theorem decimalValue_zeros (s : Blob) (k : Nat) :
    decimalValue (s ++ List.replicate k zeroChar) = decimalValue s * 10 ^ k := by
  induction k with
  | zero => rw [List.replicate_zero, List.append_nil, Nat.pow_zero, Nat.mul_one]
  | succ k ih =>
    rw [List.replicate_succ', ← List.append_assoc, decimalValue_concat, ih, Nat.pow_succ,
      ← Nat.mul_assoc]
    rfl

theorem decimalValue_zeros_front (s : Blob) (k : Nat) :
    decimalValue (List.replicate k zeroChar ++ s) = decimalValue s := by
  induction k with
  | zero => rfl
  | succ k ih =>
    rw [List.replicate_succ, List.cons_append]
    exact ih

theorem eq_replicate_of_zeros {s : Blob} (h : ∀ c ∈ s, c = zeroChar) :
    s = List.replicate s.length zeroChar :=
  List.eq_replicate_iff.2 ⟨rfl, h⟩

theorem getXtypeFromString_eq_some (str : Blob) (x : UInt64) :
    getXtypeFromString str = some x ↔
      (∀ c ∈ str, isDigit c = true) ∧ str ≠ [] ∧ decimalValue str = x.toNat := by
  unfold getXtypeFromString
  constructor
  · intro h
    split at h
    · next hok =>
      cases h
      rw [UInt64.toNat_ofNat_of_lt' hok.2.2]
      exact ⟨List.all_eq_true.1 hok.1, hok.2.1, rfl⟩
    · cases h
  · rintro ⟨hdigits, hne, hvalue⟩
    rw [if_pos ⟨List.all_eq_true.2 hdigits, hne, by rw [hvalue]; exact x.toNat_lt⟩, hvalue,
      UInt64.ofNat_toNat]

theorem isDigit_zeroChar : isDigit zeroChar = true := by decide

/-- The text of a number is its digits. -/
theorem decimalText_spec (n : Nat) :
    (∀ c ∈ decimalText n, isDigit c = true) ∧ decimalText n ≠ [] ∧
      decimalValue (decimalText n) = n := by
  unfold decimalText
  by_cases hzero : n = 0
  · rw [if_pos hzero, hzero]
    refine ⟨fun c hc => ?_, List.cons_ne_nil _ _, rfl⟩
    rw [List.mem_singleton.1 hc]
    exact isDigit_zeroChar
  · rw [if_neg hzero]
    have hlt : ∀ d ∈ Nat.digits 10 n, d < 10 := fun d hd => Nat.digits_lt_base (by decide) hd
    refine ⟨?_, ?_, ?_⟩
    · intro c hc
      obtain ⟨d, hd, rfl⟩ := List.mem_map.1 hc
      have hd' := hlt d (List.mem_reverse.1 hd)
      unfold isDigit
      interval_cases d <;> decide
    · intro hnil
      have hdigits := List.map_eq_nil_iff.1 hnil
      exact Nat.digits_ne_nil_iff_ne_zero.2 hzero (List.reverse_eq_nil_iff.1 hdigits)
    · have hvalue : ∀ l : List Nat, (∀ d ∈ l, d < 10) →
          decimalValue (l.reverse.map fun d => UInt8.ofNat (48 + d)) = Nat.ofDigits 10 l := by
        intro l hl
        induction l with
        | nil => rfl
        | cons d l ih =>
          obtain ⟨hd, hl⟩ := List.forall_mem_cons.1 hl
          have hbyte : (UInt8.ofNat (48 + d)).toNat = 48 + d := UInt8.toNat_ofNat_of_lt' (show 48 + d < 256 by omega)
          rw [List.reverse_cons, List.map_append, List.map_singleton, decimalValue_concat, ih hl,
            hbyte, Nat.ofDigits_cons]
          omega
      rw [hvalue _ hlt, Nat.ofDigits_digits]

/-! ## Zeros beyond the tenth place -/

/-- The loop stops at ten places if what is beyond them is zeros, and before that
otherwise. -/
theorem stripFraction_spec (front fraction : Blob) :
    ((∀ c ∈ fraction.drop 10, c = zeroChar) ∧
      stripFraction fraction.length (front ++ fraction) =
        ((fraction.take 10).length, front ++ fraction.take 10)) ∨
    ((∃ c ∈ fraction.drop 10, c ≠ zeroChar) ∧
      10 < (stripFraction fraction.length (front ++ fraction)).1) := by
  induction fraction using List.reverseRecOn with
  | nil => exact .inl ⟨nofun, rfl⟩
  | append_singleton fraction b ih =>
    have hlast : (front ++ (fraction ++ [b])).getLast? = some b := by
      rw [← List.append_assoc, List.getLast?_concat]
    have hfront : (front ++ (fraction ++ [b])).dropLast = front ++ fraction := by
      rw [← List.append_assoc, List.dropLast_concat]
    have hlen : (fraction ++ [b]).length = fraction.length + 1 := List.length_append
    rw [hlen]
    unfold stripFraction
    rw [hlast, hfront]
    by_cases hlong : 10 < fraction.length + 1
    · have hdrop : (fraction ++ [b]).drop 10 = fraction.drop 10 ++ [b] :=
        List.drop_append_of_le_length (by omega)
      have htake : (fraction ++ [b]).take 10 = fraction.take 10 :=
        List.take_append_of_le_length (by omega)
      rw [hdrop, htake]
      by_cases hb : b = zeroChar
      · rw [if_pos ⟨hlong, congrArg some hb⟩]
        rcases ih with ⟨hzeros, hstrip⟩ | ⟨⟨c, hc, hne⟩, hstrip⟩
        · refine .inl ⟨fun c hc => ?_, hstrip⟩
          rcases List.mem_append.1 hc with hc | hc
          · exact hzeros c hc
          · rw [List.mem_singleton.1 hc, hb]
        · exact .inr ⟨⟨c, List.mem_append_left _ hc, hne⟩, hstrip⟩
      · rw [if_neg (fun hn => hb (Option.some_inj.1 hn.2))]
        exact .inr ⟨⟨b, List.mem_append_right _ (List.mem_singleton_self b), hb⟩, hlong⟩
    · have hdrop : (fraction ++ [b]).drop 10 = [] :=
        List.drop_eq_nil_of_le (by rw [hlen]; omega)
      have htake : (fraction ++ [b]).take 10 = fraction ++ [b] :=
        List.take_of_length_le (by rw [hlen]; omega)
      rw [hdrop, htake, if_neg (fun hn => hlong hn.1), hlen]
      exact .inl ⟨nofun, rfl⟩

/-! ## What is read -/

/-- The digits with the zeros put behind them. -/
theorem padded_eq_some {digits : Blob} {k : Nat} {x : UInt64} :
    (if digits = [] then none
      else getXtypeFromString (digits ++ List.replicate k zeroChar)) = some x ↔
      (∀ c ∈ digits, isDigit c = true) ∧ digits ≠ [] ∧ decimalValue digits * 10 ^ k = x.toNat := by
  by_cases hempty : digits = []
  · rw [if_pos hempty]
    exact ⟨nofun, fun h => absurd hempty h.2.1⟩
  · rw [if_neg hempty, getXtypeFromString_eq_some, decimalValue_zeros]
    constructor
    · rintro ⟨hdigits, -, hvalue⟩
      exact ⟨fun c hc => hdigits c (List.mem_append_left _ hc), hempty, hvalue⟩
    · rintro ⟨hdigits, -, hvalue⟩
      refine ⟨fun c hc => ?_, fun hnil => hempty (List.append_eq_nil_iff.1 hnil).1, hvalue⟩
      rcases List.mem_append.1 hc with hc | hc
      · exact hdigits c hc
      · rw [(List.mem_replicate.1 hc).2]
        exact isDigit_zeroChar

theorem not_isDigit_pointChar : ¬isDigit pointChar = true := by decide

/-- A fraction of ten places, and the zeros beyond them. -/
theorem decimalValue_fraction {integer fraction : Blob} (n : Nat)
    (hzeros : ∀ c ∈ fraction.drop 10, c = zeroChar) :
    decimalValue (integer ++ fraction.take 10) * 10 ^ (10 - (fraction.take 10).length) = n ↔
      decimalValue (integer ++ fraction) * 10 ^ 10 = n * 10 ^ fraction.length := by
  by_cases hlong : 10 ≤ fraction.length
  · have htake : (fraction.take 10).length = 10 := List.length_take_of_le hlong
    have hsplit : integer ++ fraction =
        integer ++ fraction.take 10 ++ List.replicate (fraction.length - 10) zeroChar := by
      have hrest := eq_replicate_of_zeros hzeros
      rw [List.length_drop] at hrest
      rw [List.append_assoc, ← hrest, List.take_append_drop]
    have hpow : 10 ^ fraction.length = 10 ^ (fraction.length - 10) * 10 ^ 10 := by
      rw [← Nat.pow_add, Nat.sub_add_cancel hlong]
    have hpos : 0 < 10 ^ (fraction.length - 10) * 10 ^ 10 :=
      Nat.mul_pos (Nat.pow_pos (by decide)) (by decide)
    rw [htake, Nat.sub_self, Nat.pow_zero, Nat.mul_one, hsplit, decimalValue_zeros, hpow,
      Nat.mul_assoc, Nat.mul_left_inj hpos.ne']
  · have htake : fraction.take 10 = fraction := List.take_of_length_le (by omega)
    have hpow : 10 ^ 10 = 10 ^ (10 - fraction.length) * 10 ^ fraction.length := by
      rw [← Nat.pow_add, Nat.sub_add_cancel (by omega)]
    have hpos : 0 < 10 ^ fraction.length := Nat.pow_pos (by decide)
    rw [htake, hpow, ← Nat.mul_assoc, Nat.mul_left_inj hpos.ne']

/-- No point: the text is the whole number. -/
theorem parseAmount_whole {s : Blob} (hpoint : pointChar ∉ trim s) (x : UInt64) :
    parseAmount s = some x ↔ DenotesAmount (trim s) x.toNat := by
  have hfind : (trim s).findIdx? (· == pointChar) = none := by
    rw [List.findIdx?_eq_none_iff]
    intro c hc
    exact beq_eq_false_iff_ne.2 fun heq => hpoint (heq ▸ hc)
  unfold parseAmount
  simp only
  rw [hfind, padded_eq_some]
  constructor
  · rintro ⟨hdigits, hne, hvalue⟩
    refine ⟨trim s, [], .inl ⟨rfl, rfl⟩, ?_, ?_, nofun, ?_⟩
    · rw [List.append_nil]
      exact hdigits
    · rw [List.append_nil]
      exact hne
    · rw [List.append_nil, List.length_nil, Nat.pow_zero, Nat.mul_one]
      exact hvalue
  · rintro ⟨integer, fraction, ⟨htext, rfl⟩ | htext, hdigits, hne, -, hvalue⟩
    · rw [List.append_nil] at hdigits hne hvalue
      rw [List.length_nil, Nat.pow_zero, Nat.mul_one] at hvalue
      rw [htext]
      exact ⟨hdigits, hne, hvalue⟩
    · refine absurd ?_ hpoint
      rw [htext]
      exact List.mem_append_right _ List.mem_cons_self

/-- The first point: what is in front of it and what is behind. -/
theorem parseAmount_point {s integer fraction : Blob} (htext : trim s = integer ++ pointChar :: fraction)
    (hfirst : pointChar ∉ integer) (x : UInt64) :
    parseAmount s = some x ↔ DenotesAmount (trim s) x.toNat := by
  -- the point the parser finds is the first one
  have hfind : (trim s).findIdx? (· == pointChar) = some integer.length := by
    rw [htext, List.findIdx?_append, List.findIdx?_cons]
    have hnone : integer.findIdx? (· == pointChar) = none := by
      rw [List.findIdx?_eq_none_iff]
      intro c hc
      exact beq_eq_false_iff_ne.2 fun heq => hfirst (heq ▸ hc)
    rw [hnone, beq_self_eq_true, if_pos rfl, Option.none_or, Option.map_some, Nat.zero_add]
  have hsize : (trim s).length - integer.length - 1 = fraction.length := by
    rw [htext, List.length_append, List.length_cons]
    omega
  -- a text with a point has one reading: cut at that point
  have hdenotes : DenotesAmount (trim s) x.toNat ↔
      (∀ c ∈ integer ++ fraction, isDigit c = true) ∧ integer ++ fraction ≠ [] ∧
      (∀ c ∈ fraction.drop 10, c = zeroChar) ∧
      decimalValue (integer ++ fraction) * 10 ^ 10 = x.toNat * 10 ^ fraction.length := by
    constructor
    · rintro ⟨integer', fraction', ⟨htext', rfl⟩ | htext', hdigits, hrest⟩
      · -- the point would be a digit
        have hmem : pointChar ∈ integer' ++ [] := by
          rw [List.append_nil, ← htext', htext]
          exact List.mem_append_right _ List.mem_cons_self
        exact absurd (hdigits _ hmem) not_isDigit_pointChar
      · have hinteger : pointChar ∉ integer' := fun hmem =>
          not_isDigit_pointChar (hdigits _ (List.mem_append_left _ hmem))
        have hfraction : pointChar ∉ fraction' := fun hmem =>
          not_isDigit_pointChar (hdigits _ (List.mem_append_right _ hmem))
        obtain ⟨rfl, -, rfl⟩ :=
          (List.append_cons_inj_of_notMem hinteger hfraction).1 (htext'.symm.trans htext)
        exact ⟨hdigits, hrest⟩
    · intro h
      exact ⟨integer, fraction, .inr htext, h⟩
  have hfront : ∀ rest : Blob, integer ++ pointChar :: rest = integer ++ [pointChar] ++ rest :=
    fun rest => by rw [List.append_assoc, List.singleton_append]
  have herase : ∀ rest : Blob, (integer ++ [pointChar] ++ rest).eraseIdx integer.length =
      integer ++ rest := by
    intro rest
    rw [← hfront, List.eraseIdx_append_of_length_le (Nat.le_refl _), Nat.sub_self,
      List.eraseIdx_zero, List.tail_cons]
  rw [hdenotes]
  unfold parseAmount
  simp only
  rw [hfind]
  simp only
  rw [hsize, htext, hfront]
  rcases stripFraction_spec (integer ++ [pointChar]) fraction with ⟨hzeros, hstrip⟩ |
    ⟨⟨c, hc, hne⟩, hstrip⟩
  -- with nothing but zeros behind, the fraction is cut to ten digits
  · have hten : ¬currencyDisplayDecimalPoint < (fraction.take 10).length := by
      have hle : (fraction.take 10).length ≤ 10 := List.length_take_le _ _
      exact Nat.not_lt.2 hle
    have hempty : integer ++ fraction.take 10 ≠ [] ↔ integer ++ fraction ≠ [] := by
      rw [ne_eq, ne_eq, List.append_eq_nil_iff, List.append_eq_nil_iff, List.take_eq_nil_iff]
      simp
    have hdigits : (∀ c ∈ integer ++ fraction.take 10, isDigit c = true) ↔
        ∀ c ∈ integer ++ fraction, isDigit c = true := by
      constructor
      · intro h c hc
        rcases List.mem_append.1 hc with hc | hc
        · exact h c (List.mem_append_left _ hc)
        · rw [← List.take_append_drop 10 fraction] at hc
          rcases List.mem_append.1 hc with hc | hc
          · exact h c (List.mem_append_right _ hc)
          · rw [hzeros c hc]
            exact isDigit_zeroChar
      · intro h c hc
        rcases List.mem_append.1 hc with hc | hc
        · exact h c (List.mem_append_left _ hc)
        · exact h c (List.mem_append_right _ (List.mem_of_mem_take hc))
    rw [hstrip]
    simp only
    rw [if_neg hten, herase, padded_eq_some, hempty, hdigits]
    have hvalue := @decimalValue_fraction integer _ x.toNat hzeros
    constructor
    · rintro ⟨hall, hsome, hx⟩
      exact ⟨hall, hsome, hzeros, hvalue.1 hx⟩
    · rintro ⟨hall, hsome, -, hx⟩
      exact ⟨hall, hsome, hvalue.2 hx⟩
  · rw [if_pos (show currencyDisplayDecimalPoint < _ from hstrip)]
    exact ⟨nofun, fun h => absurd (h.2.2.1 c hc) hne⟩

theorem parseAmount_eq_some (s : Blob) (x : UInt64) :
    parseAmount s = some x ↔ DenotesAmount (trim s) x.toNat := by
  by_cases hpoint : pointChar ∈ trim s
  · obtain ⟨integer, fraction, htext, hfirst⟩ := List.eq_append_cons_of_mem hpoint
    exact parseAmount_point htext hfirst x
  · exact parseAmount_whole hpoint x

/-! ## What is printed -/

theorem trim_of_noSpace {s : Blob} (h : ∀ c ∈ s, isSpace c = false) : trim s = s := by
  have hnot : ∀ c ∈ s, ¬isSpace c = true := fun c hc => by rw [h c hc]; exact Bool.false_ne_true
  unfold trim
  rw [List.dropWhile_eq_self_iff.2 fun hl => hnot _ (List.getElem_mem hl),
    List.rdropWhile_eq_self_iff.2 fun hl => hnot _ (List.getLast_mem hl)]

theorem isSpace_of_isDigit {c : UInt8} (h : isDigit c = true) : isSpace c = false := by
  unfold isDigit at h
  unfold isSpace
  rw [Bool.and_eq_true, decide_eq_true_eq, decide_eq_true_eq, UInt8.le_iff_toNat_le,
    UInt8.le_iff_toNat_le] at h
  rw [Bool.or_eq_false_iff, Bool.and_eq_false_iff, decide_eq_false_iff_not, decide_eq_false_iff_not,
    decide_eq_false_iff_not, UInt8.le_iff_toNat_le, UInt8.le_iff_toNat_le, ← UInt8.toNat_inj]
  have h48 : (48 : UInt8).toNat = 48 := rfl
  have h57 : (57 : UInt8).toNat = 57 := rfl
  have h32 : (32 : UInt8).toNat = 32 := rfl
  have h13 : (13 : UInt8).toNat = 13 := rfl
  omega

/-- At least eleven digits, that stand for the amount. -/
theorem printMoney_digits (amount : UInt64) :
    ∃ digits : Blob, printMoney amount = digits.take (digits.length - 10) ++
        pointChar :: digits.drop (digits.length - 10) ∧
      (∀ c ∈ digits, isDigit c = true) ∧ 10 < digits.length ∧
      decimalValue digits = amount.toNat := by
  obtain ⟨hdigits, -, hvalue⟩ := decimalText_spec amount.toNat
  unfold printMoney
  by_cases hshort : (decimalText amount.toNat).length < currencyDisplayDecimalPoint + 1
  · refine ⟨List.replicate (currencyDisplayDecimalPoint + 1 - (decimalText amount.toNat).length)
      zeroChar ++ decimalText amount.toNat, ?_, ?_, ?_, ?_⟩
    · simp only
      rw [if_pos hshort]
      rfl
    · intro c hc
      rcases List.mem_append.1 hc with hc | hc
      · rw [(List.mem_replicate.1 hc).2]
        exact isDigit_zeroChar
      · exact hdigits c hc
    · unfold currencyDisplayDecimalPoint at hshort ⊢
      rw [List.length_append, List.length_replicate]
      omega
    · rw [decimalValue_zeros_front, hvalue]
  · refine ⟨decimalText amount.toNat, ?_, hdigits, ?_, hvalue⟩
    · simp only
      rw [if_neg hshort]
      rfl
    · unfold currencyDisplayDecimalPoint at hshort
      omega

theorem denotesAmount_printMoney (amount : UInt64) :
    DenotesAmount (trim (printMoney amount)) amount.toNat := by
  obtain ⟨digits, hprint, hdigits, hlen, hvalue⟩ := printMoney_digits amount
  have hspace : ∀ c ∈ printMoney amount, isSpace c = false := by
    intro c hc
    rw [hprint] at hc
    rcases List.mem_append.1 hc with hc | hc
    · exact isSpace_of_isDigit (hdigits c (List.mem_of_mem_take hc))
    · rcases List.mem_cons.1 hc with rfl | hc
      · decide
      · exact isSpace_of_isDigit (hdigits c (List.mem_of_mem_drop hc))
  have hfraction : (digits.drop (digits.length - 10)).length = 10 := by
    rw [List.length_drop]
    omega
  rw [trim_of_noSpace hspace, hprint]
  refine ⟨_, _, .inr rfl, ?_, ?_, ?_, ?_⟩
  · rw [List.take_append_drop]
    exact hdigits
  · rw [List.take_append_drop]
    exact List.ne_nil_of_length_pos (by omega)
  · rw [List.drop_eq_nil_of_le hfraction.le]
    exact nofun
  · rw [List.take_append_drop, hvalue, hfraction]

/-- An amount that was printed is read again; and of all texts those are read that
stand for an amount of 64 bits, and it is that amount. -/
theorem parseAmount_exact :
    (∀ x, parseAmount (printMoney x) = some x) ∧
    ∀ s n, (∃ x, parseAmount s = some x ∧ x.toNat = n) ↔ n < 2 ^ 64 ∧ DenotesAmount (trim s) n := by
  refine ⟨fun x => (parseAmount_eq_some _ x).2 (denotesAmount_printMoney x), fun s n => ⟨?_, ?_⟩⟩
  · rintro ⟨x, hx, rfl⟩
    exact ⟨x.toNat_lt, (parseAmount_eq_some s x).1 hx⟩
  · rintro ⟨hlt, hdenotes⟩
    have hx : (UInt64.ofNat n).toNat = n := UInt64.toNat_ofNat_of_lt' hlt
    exact ⟨UInt64.ofNat n, (parseAmount_eq_some s _).2 (by rw [hx]; exact hdenotes), hx⟩

end DarknetSpace
