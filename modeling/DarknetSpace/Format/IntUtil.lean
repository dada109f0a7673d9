import DarknetSpace.Lib.Words

/-!
# 128-bit products and quotients (`int-util.h`)

Where the compiler has a 128-bit type the product and the quotient are its own;
elsewhere they are put together by hand from 32-bit halves. Both come to the
same numbers.

The product by hand adds four partial products, whose middle ones may carry
(`mul128Manually_eq`). The quotient divides dword after dword from the top, with the
remainder of one step in front of the next dword (`div128By32Manually_eq`). Both come
down to the arithmetic of `Lib/Words`; the shifts and masks that take halves apart are
the first section.
-/

namespace DarknetSpace

open Words

/-- `hi_dword` and `lo_dword`. -/
def hiDword (val : UInt64) : UInt64 := val >>> 32
def loDword (val : UInt64) : UInt64 := val &&& 0xFFFFFFFF

/-- `mul128` with a 128-bit type: `product_lo` and `product_hi`. -/
def mul128 (multiplier multiplicand : UInt64) : UInt64 × UInt64 := mulWide multiplier multiplicand

def mul128Manually (multiplier multiplicand : UInt64) : UInt64 × UInt64 :=
  let a := hiDword multiplier
  let b := loDword multiplier
  let c := hiDword multiplicand
  let d := loDword multiplicand
  let ac := a * c
  let ad := a * d
  let bc := b * c
  let bd := b * d
  let adbc := ad + bc
  let adbcCarry : UInt64 := if adbc < ad then 1 else 0
  let productLo := bd + (adbc <<< 32)
  let productLoCarry : UInt64 := if productLo < bd then 1 else 0
  (productLo, ac + (adbc >>> 32) + (adbcCarry <<< 32) + productLoCarry)

/-- `div128_32` with a 128-bit type: the quotient in two words, and the
remainder. -/
def div128By32 (dividendHi dividendLo : UInt64) (divisor : UInt32) : (UInt64 × UInt64) × UInt32 :=
  let dividend := two dividendLo dividendHi
  ((UInt64.ofNat (dividend / divisor.toNat / 2 ^ 64), UInt64.ofNat (dividend / divisor.toNat)),
    UInt32.ofNat (dividend % divisor.toNat))

/-- `div_with_reminder`: the quotient and the remainder. -/
def divWithReminder (dividend : UInt64) (divisor remainder : UInt32) : UInt64 × UInt32 :=
  let dividend := dividend ||| (remainder.toUInt64 <<< 32)
  (dividend / divisor.toUInt64, (dividend % divisor.toUInt64).toUInt32)

def div128By32Manually (dividendHi dividendLo : UInt64) (divisor : UInt32) :
    (UInt64 × UInt64) × UInt32 :=
  let q₃ := divWithReminder (hiDword dividendHi) divisor 0
  let q₂ := divWithReminder (loDword dividendHi) divisor q₃.2
  let q₁ := divWithReminder (hiDword dividendLo) divisor q₂.2
  let q₀ := divWithReminder (loDword dividendLo) divisor q₁.2
  ((q₃.1 <<< 32 ||| q₂.1, q₁.1 <<< 32 ||| q₀.1), q₀.2)

/-! ## Halves -/

theorem hiDword_toNat (val : UInt64) : (hiDword val).toNat = val.toNat / 2 ^ 32 := by
  unfold hiDword
  rw [UInt64.toNat_shiftRight, Nat.shiftRight_eq_div_pow]
  rfl

theorem loDword_toNat (val : UInt64) : (loDword val).toNat = val.toNat % 2 ^ 32 := by
  unfold loDword
  rw [UInt64.toNat_and]
  exact Nat.and_two_pow_sub_one_eq_mod val.toNat 32

theorem mul_toNat_of_lt {x y : UInt64} (hx : x.toNat < 2 ^ 32) (hy : y.toNat < 2 ^ 32) :
    (x * y).toNat = x.toNat * y.toNat ∧ x.toNat * y.toNat ≤ (2 ^ 32 - 1) * (2 ^ 32 - 1) := by
  have hle : x.toNat * y.toNat ≤ (2 ^ 32 - 1) * (2 ^ 32 - 1) :=
    Nat.mul_le_mul (Nat.le_sub_one_of_lt hx) (Nat.le_sub_one_of_lt hy)
  refine ⟨?_, hle⟩
  rw [UInt64.toNat_mul]
  exact Nat.mod_eq_of_lt (by omega)

theorem shiftLeft_toNat (x : UInt64) : (x <<< 32).toNat = x.toNat * 2 ^ 32 % 2 ^ 64 := by
  rw [UInt64.toNat_shiftLeft, Nat.shiftLeft_eq]
  rfl

theorem shiftRight_toNat (x : UInt64) : (x >>> 32).toNat = x.toNat / 2 ^ 32 := by
  rw [UInt64.toNat_shiftRight, Nat.shiftRight_eq_div_pow]
  rfl

/-- Two halves side by side. -/
theorem or_shiftLeft_toNat {x y : UInt64} (hx : x.toNat < 2 ^ 32) (hy : y.toNat < 2 ^ 32) :
    (x <<< 32 ||| y).toNat = x.toNat * 2 ^ 32 + y.toNat := by
  rw [UInt64.toNat_or, shiftLeft_toNat, Nat.mod_eq_of_lt (by omega), ← Nat.shiftLeft_eq,
    ← Nat.shiftLeft_add_eq_or_of_lt hy, Nat.shiftLeft_eq]

/-! ## By hand -/

/-- The assertion `ac <= product_hi` holds because nothing wraps. -/
theorem mul128Manually_eq (multiplier multiplicand : UInt64) :
    mul128Manually multiplier multiplicand = mul128 multiplier multiplicand := by
  have hm := multiplier.toNat_lt
  have hn := multiplicand.toNat_lt
  have ha : (hiDword multiplier).toNat < 2 ^ 32 := by rw [hiDword_toNat]; omega
  have hb : (loDword multiplier).toNat < 2 ^ 32 := by rw [loDword_toNat]; omega
  have hc : (hiDword multiplicand).toNat < 2 ^ 32 := by rw [hiDword_toNat]; omega
  have hd : (loDword multiplicand).toNat < 2 ^ 32 := by rw [loDword_toNat]; omega
  have hm' : multiplier.toNat = (hiDword multiplier).toNat * 2 ^ 32 + (loDword multiplier).toNat := by
    rw [hiDword_toNat, loDword_toNat]
    omega
  have hn' : multiplicand.toNat =
      (hiDword multiplicand).toNat * 2 ^ 32 + (loDword multiplicand).toNat := by
    rw [hiDword_toNat, loDword_toNat]
    omega
  have hproduct := mulWide_eq multiplier multiplicand
  -- ab * cd = a * c * 2^64 + (a * d + b * c) * 2^32 + b * d
  have hexpand : multiplier.toNat * multiplicand.toNat =
      (hiDword multiplier).toNat * (hiDword multiplicand).toNat * 2 ^ 64 +
      ((hiDword multiplier).toNat * (loDword multiplicand).toNat +
        (loDword multiplier).toNat * (hiDword multiplicand).toNat) * 2 ^ 32 +
      (loDword multiplier).toNat * (loDword multiplicand).toNat := by
    rw [hm', hn']
    ring
  obtain ⟨hac, hacle⟩ := mul_toNat_of_lt ha hc
  obtain ⟨had, hadle⟩ := mul_toNat_of_lt ha hd
  obtain ⟨hbc, hbcle⟩ := mul_toNat_of_lt hb hc
  obtain ⟨hbd, hbdle⟩ := mul_toNat_of_lt hb hd
  rw [hexpand, ← hac, ← had, ← hbc, ← hbd] at hproduct
  rw [← hac] at hacle
  rw [← had] at hadle
  rw [← hbc] at hbcle
  rw [← hbd] at hbdle
  have hsum := mul_toNat_lt multiplier multiplicand
  rw [hexpand, ← hac, ← had, ← hbc, ← hbd] at hsum
  unfold mul128Manually mul128
  simp only
  generalize hiDword multiplier * hiDword multiplicand = ac at *
  generalize hiDword multiplier * loDword multiplicand = ad at *
  generalize loDword multiplier * hiDword multiplicand = bc at *
  generalize loDword multiplier * loDword multiplicand = bd at *
  have hadbc : (ad + bc).toNat = (ad.toNat + bc.toNat) % 2 ^ 64 := UInt64.toNat_add ad bc
  have hcarry : (if ad + bc < ad then (1 : UInt64) else 0).toNat =
      (ad.toNat + bc.toNat) / 2 ^ 64 := by
    by_cases hlt : ad + bc < ad
    · rw [if_pos hlt]
      rw [UInt64.lt_iff_toNat_lt, hadbc] at hlt
      show 1 = _
      omega
    · rw [if_neg hlt]
      rw [UInt64.lt_iff_toNat_lt, hadbc] at hlt
      show 0 = _
      omega
  generalize (if ad + bc < ad then (1 : UInt64) else 0) = carry at *
  generalize ad + bc = adbc at *
  have hshift := shiftLeft_toNat adbc
  have hlo : (bd + adbc <<< 32).toNat = (bd.toNat + (adbc <<< 32).toNat) % 2 ^ 64 :=
    UInt64.toNat_add bd (adbc <<< 32)
  generalize adbc <<< 32 = shifted at *
  have hloCarry : (if bd + shifted < bd then (1 : UInt64) else 0).toNat =
      (bd.toNat + shifted.toNat) / 2 ^ 64 := by
    by_cases hlt : bd + shifted < bd
    · rw [if_pos hlt]
      rw [UInt64.lt_iff_toNat_lt, hlo] at hlt
      show 1 = _
      omega
    · rw [if_neg hlt]
      rw [UInt64.lt_iff_toNat_lt, hlo] at hlt
      show 0 = _
      omega
  generalize (if bd + shifted < bd then (1 : UInt64) else 0) = loCarry at *
  have hhi : (ac + adbc >>> 32 + carry <<< 32 + loCarry).toNat =
      ac.toNat + adbc.toNat / 2 ^ 32 + carry.toNat * 2 ^ 32 + loCarry.toNat := by
    have hcarryShift := shiftLeft_toNat carry
    rw [UInt64.toNat_add, UInt64.toNat_add, UInt64.toNat_add, shiftRight_toNat, hcarryShift]
    omega
  have hsame : two (bd + shifted) (ac + adbc >>> 32 + carry <<< 32 + loCarry) =
      two (mulWide multiplier multiplicand).1 (mulWide multiplier multiplicand).2 := by
    rw [hproduct]
    unfold two
    rw [hlo, hhi]
    omega
  obtain ⟨hfst, hsnd⟩ := two_inj hsame
  exact Prod.ext hfst hsnd

theorem divWithReminder_toNat {dividend : UInt64} (divisor remainder : UInt32)
    (hdividend : dividend.toNat < 2 ^ 32) :
    (divWithReminder dividend divisor remainder).1.toNat =
        (remainder.toNat * 2 ^ 32 + dividend.toNat) / divisor.toNat ∧
      (divWithReminder dividend divisor remainder).2.toNat =
        (remainder.toNat * 2 ^ 32 + dividend.toNat) % divisor.toNat % 2 ^ 32 := by
  have hr : remainder.toUInt64.toNat < 2 ^ 32 := by
    rw [UInt32.toNat_toUInt64]
    exact remainder.toNat_lt
  have hor : (dividend ||| remainder.toUInt64 <<< 32).toNat =
      remainder.toNat * 2 ^ 32 + dividend.toNat := by
    rw [UInt64.or_comm, or_shiftLeft_toNat hr hdividend, UInt32.toNat_toUInt64]
  unfold divWithReminder
  simp only
  rw [UInt64.toNat_div, UInt64.toNat_toUInt32, UInt64.toNat_mod, hor, UInt32.toNat_toUInt64]
  exact ⟨rfl, rfl⟩

/-- Dword after dword the dividend is used up, and no quotient needs more than a
dword. -/
theorem div128By32Manually_eq (dividendHi dividendLo : UInt64) {divisor : UInt32}
    (hpos : 0 < divisor.toNat) :
    div128By32Manually dividendHi dividendLo divisor = div128By32 dividendHi dividendLo divisor := by
  have hdivisor := divisor.toNat_lt
  have hhi := dividendHi.toNat_lt
  have hlo := dividendLo.toNat_lt
  have hdword : ∀ v : UInt64, (hiDword v).toNat < 2 ^ 32 ∧ (loDword v).toNat < 2 ^ 32 := by
    intro v
    have hv := v.toNat_lt
    rw [hiDword_toNat, loDword_toNat]
    omega
  have hsmall : ∀ r n : Nat, r < divisor.toNat → n < 2 ^ 32 →
      (r * 2 ^ 32 + n) / divisor.toNat < 2 ^ 32 := by
    intro r n hr hn
    rw [Nat.div_lt_iff_lt_mul hpos]
    calc r * 2 ^ 32 + n < (r + 1) * 2 ^ 32 := by omega
      _ ≤ divisor.toNat * 2 ^ 32 := Nat.mul_le_mul_right _ hr
      _ = 2 ^ 32 * divisor.toNat := Nat.mul_comm _ _
  have hrem : ∀ n : Nat, n % divisor.toNat % 2 ^ 32 = n % divisor.toNat := by
    intro n
    have := Nat.mod_lt n hpos
    exact Nat.mod_eq_of_lt (by omega)
  unfold div128By32Manually div128By32
  simp only
  generalize hq₃ : divWithReminder (hiDword dividendHi) divisor 0 = q₃
  obtain ⟨hv₃, hr₃⟩ := hq₃ ▸ divWithReminder_toNat divisor 0
    (hdword dividendHi).1
  generalize hq₂ : divWithReminder (loDword dividendHi) divisor q₃.2 = q₂
  obtain ⟨hv₂, hr₂⟩ := hq₂ ▸ divWithReminder_toNat divisor q₃.2
    (hdword dividendHi).2
  generalize hq₁ : divWithReminder (hiDword dividendLo) divisor q₂.2 = q₁
  obtain ⟨hv₁, hr₁⟩ := hq₁ ▸ divWithReminder_toNat divisor q₂.2
    (hdword dividendLo).1
  generalize hq₀ : divWithReminder (loDword dividendLo) divisor q₁.2 = q₀
  obtain ⟨hv₀, hr₀⟩ := hq₀ ▸ divWithReminder_toNat divisor q₁.2
    (hdword dividendLo).2
  rw [hrem] at hr₃ hr₂ hr₁ hr₀
  rw [show (0 : UInt32).toNat = 0 from rfl, Nat.zero_mul, Nat.zero_add] at hv₃ hr₃
  rw [hr₃] at hv₂ hr₂
  -- what is in front of a dword, divided, and the dword behind the remainder
  obtain ⟨hd₂, hm₂⟩ := div_step (hiDword dividendHi).toNat divisor.toNat (loDword dividendHi).toNat
    (2 ^ 32) hpos
  rw [hm₂] at hr₂
  rw [hr₂] at hv₁ hr₁
  obtain ⟨hd₁, hm₁⟩ := div_step ((hiDword dividendHi).toNat * 2 ^ 32 + (loDword dividendHi).toNat)
    divisor.toNat (hiDword dividendLo).toNat (2 ^ 32) hpos
  rw [hm₁] at hr₁
  rw [hr₁] at hv₀ hr₀
  obtain ⟨hd₀, hm₀⟩ := div_step
    (((hiDword dividendHi).toNat * 2 ^ 32 + (loDword dividendHi).toNat) * 2 ^ 32 +
      (hiDword dividendLo).toNat) divisor.toNat (loDword dividendLo).toNat (2 ^ 32) hpos
  rw [hm₀] at hr₀
  have hwhole : (((hiDword dividendHi).toNat * 2 ^ 32 + (loDword dividendHi).toNat) * 2 ^ 32 +
      (hiDword dividendLo).toNat) * 2 ^ 32 + (loDword dividendLo).toNat = two dividendLo dividendHi := by
    unfold two
    rw [hiDword_toNat, loDword_toNat, hiDword_toNat, loDword_toNat]
    omega
  rw [hwhole] at hr₀ hd₀
  have hlt₃ : q₃.1.toNat < 2 ^ 32 := by
    rw [hv₃]
    exact Nat.lt_of_le_of_lt (Nat.div_le_self _ _) (hdword dividendHi).1
  have hlt₂ : q₂.1.toNat < 2 ^ 32 := by
    rw [hv₂]
    exact hsmall _ _ (Nat.mod_lt _ hpos) (hdword dividendHi).2
  have hlt₁ : q₁.1.toNat < 2 ^ 32 := by
    rw [hv₁]
    exact hsmall _ _ (Nat.mod_lt _ hpos) (hdword dividendLo).1
  have hlt₀ : q₀.1.toNat < 2 ^ 32 := by
    rw [hv₀]
    exact hsmall _ _ (Nat.mod_lt _ hpos) (hdword dividendLo).2
  have hquotient : two (q₁.1 <<< 32 ||| q₀.1) (q₃.1 <<< 32 ||| q₂.1) =
      two dividendLo dividendHi / divisor.toNat := by
    rw [← hv₀] at hd₀
    rw [← hv₁] at hd₁
    rw [← hv₂, ← hv₃] at hd₂
    rw [← hd₀, ← hd₁, ← hd₂]
    unfold two
    rw [or_shiftLeft_toNat hlt₁ hlt₀, or_shiftLeft_toNat hlt₃ hlt₂]
    ring
  have hquotientLt : two dividendLo dividendHi / divisor.toNat < 2 ^ 128 :=
    Nat.lt_of_le_of_lt (Nat.div_le_self _ _) (two_lt _ _)
  rw [← two_ofNat hquotientLt] at hquotient
  obtain ⟨hqlo, hqhi⟩ := two_inj hquotient
  have hremainder : q₀.2 = UInt32.ofNat (two dividendLo dividendHi % divisor.toNat) := by
    have hmod := Nat.mod_lt (two dividendLo dividendHi) hpos
    apply UInt32.toNat_inj.1
    rw [UInt32.toNat_ofNat_of_lt' (show _ < 2 ^ 32 by omega)]
    exact hr₀
  rw [hqlo, hqhi, hremainder]

end DarknetSpace
