import Mathlib.Tactic.Ring
import Mathlib.Tactic.Linarith

/-!
# Numbers in 64-bit words

Products of two words take two words, sums a carry. `mulWide` and the carry
tests `cadd` and `cadc` are given with what they compute as natural numbers, so
that a chain of carries over several words reads as one sum (`chain_carry`).
`divLong` is the long division by a half word, dword after dword.

The source keeps a difficulty times a target, and a hash, in four words or eight, and
compares and divides them word by word. The lemmas say what number such a row of words
is (`two`, `two_ofNat`), so that a comparison, a carry or a quotient is one of numbers,
and the word size is gone from the proofs that use them.
-/

namespace Words

/-- A number in two words. -/
def two (lo hi : UInt64) : Nat := lo.toNat + 2 ^ 64 * hi.toNat

theorem two_lt (lo hi : UInt64) : two lo hi < 2 ^ 128 := by
  have hlo := lo.toNat_lt
  have hhi := hi.toNat_lt
  unfold two
  omega

/-- The words of a number below `2 ^ 128`. -/
theorem two_ofNat {n : Nat} (h : n < 2 ^ 128) :
    two (UInt64.ofNat n) (UInt64.ofNat (n / 2 ^ 64)) = n := by
  have hhi : n / 2 ^ 64 < 2 ^ 64 := by omega
  unfold two
  rw [UInt64.toNat_ofNat', UInt64.toNat_ofNat_of_lt' hhi]
  omega

theorem two_inj {lo hi lo' hi' : UInt64} (h : two lo hi = two lo' hi') : lo = lo' ∧ hi = hi' := by
  have hlo := lo.toNat_lt
  have hlo' := lo'.toNat_lt
  unfold two at h
  exact ⟨UInt64.toNat_inj.1 (by omega), UInt64.toNat_inj.1 (by omega)⟩

/-! ## Products -/

/-- The product of two words: the low and the high word. -/
def mulWide (a b : UInt64) : UInt64 × UInt64 :=
  (UInt64.ofNat (a.toNat * b.toNat), UInt64.ofNat (a.toNat * b.toNat / 2 ^ 64))

theorem mul_toNat_lt (a b : UInt64) : a.toNat * b.toNat < 2 ^ 128 :=
  calc a.toNat * b.toNat < 2 ^ 64 * 2 ^ 64 := Nat.mul_lt_mul'' a.toNat_lt b.toNat_lt
    _ = 2 ^ 128 := by decide

theorem mulWide_eq (a b : UInt64) :
    two (mulWide a b).1 (mulWide a b).2 = a.toNat * b.toNat :=
  two_ofNat (mul_toNat_lt a b)

/-! ## Carries -/

/-- The sum of two words carries. -/
def cadd (a b : UInt64) : Bool := decide (a + b < a)

/-- The sum of two words and a carry carries. -/
def cadc (a b : UInt64) (c : Bool) : Bool := decide (a + b < a) || (c && a + b == 0 - 1)

theorem cadd_iff (a b : UInt64) : cadd a b = true ↔ 2 ^ 64 ≤ a.toNat + b.toNat := by
  have ha := a.toNat_lt
  have hb := b.toNat_lt
  unfold cadd
  rw [decide_eq_true_iff, UInt64.lt_iff_toNat_lt, UInt64.toNat_add]
  omega

theorem cadc_iff (a b : UInt64) (c : Bool) :
    cadc a b c = true ↔ 2 ^ 64 ≤ a.toNat + b.toNat + c.toNat := by
  have ha := a.toNat_lt
  have hb := b.toNat_lt
  have htop : a + b = 0 - 1 ↔ (a.toNat + b.toNat) % 2 ^ 64 = 2 ^ 64 - 1 := by
    rw [← UInt64.toNat_inj, UInt64.toNat_add]
    rfl
  unfold cadc
  rw [Bool.or_eq_true, Bool.and_eq_true, beq_iff_eq, htop, decide_eq_true_iff,
    UInt64.lt_iff_toNat_lt, UInt64.toNat_add]
  cases c with
  | false =>
    simp only [Bool.false_eq_true, false_and, or_false, Bool.toNat_false]
    omega
  | true =>
    simp only [true_and, Bool.toNat_true]
    omega

/-- The carry as a number. -/
theorem toNat_of_iff {c : Bool} {p : Prop} (h : c = true ↔ p) :
    (p → c.toNat = 1) ∧ (¬ p → c.toNat = 0) := by
  constructor
  · intro hp
    rw [h.2 hp, Bool.toNat_true]
  · intro hp
    have hfalse : c = false := by
      rw [← Bool.not_eq_true, h]
      exact hp
    rw [hfalse, Bool.toNat_false]

/-- Four double words, each one word above the one before, whose top word is
empty: their sum needs a fifth word exactly when the last carry is set. -/
theorem chain_carry (l₀ h₀ l₁ h₁ l₂ h₂ l₃ : UInt64) :
    cadc h₂ l₃ (cadc h₁ l₂ (cadd h₀ l₁)) = true ↔
      2 ^ 256 ≤ two l₀ h₀ + 2 ^ 64 * two l₁ h₁ + 2 ^ 128 * two l₂ h₂ + 2 ^ 192 * l₃.toNat := by
  have hl₀ := l₀.toNat_lt
  have hl₁ := l₁.toNat_lt
  have hl₂ := l₂.toNat_lt
  have hl₃ := l₃.toNat_lt
  have hh₀ := h₀.toNat_lt
  have hh₁ := h₁.toNat_lt
  have hh₂ := h₂.toNat_lt
  obtain ⟨hone, hzero⟩ := toNat_of_iff (cadd_iff h₀ l₁)
  obtain ⟨hone', hzero'⟩ := toNat_of_iff (cadc_iff h₁ l₂ (cadd h₀ l₁))
  rw [cadc_iff]
  unfold two
  omega

/-! ## Long division -/

/-- The remainder goes in front of the next dword. -/
theorem div_step (r d n k : Nat) (hd : 0 < d) :
    (r % d * k + n) / d + r / d * k = (r * k + n) / d ∧
      (r % d * k + n) % d = (r * k + n) % d := by
  have hsplit : r * k + n = r % d * k + n + r / d * k * d := by
    have hr := Nat.mod_add_div r d
    calc r * k + n = (r % d + d * (r / d)) * k + n := by rw [hr]
      _ = r % d * k + n + r / d * k * d := by ring
  constructor
  · rw [hsplit, Nat.add_mul_div_right _ _ hd]
  · rw [hsplit, Nat.add_mul_mod_self_right]

end Words
