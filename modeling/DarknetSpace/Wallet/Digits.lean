import DarknetSpace.Wallet.Payment

/-!
# Taking an amount apart (`decompose_amount_into_digits`)

The loop in 64 bits beside the loop in exact numbers (`digitCalls`). What is in
the dust and what is still to come never exceed the amount, so no sum wraps; the
power of ten may, behind the last digit, where nothing multiplies by it any more.
A digit that is too large for the dust closes it: the digits behind it are larger
still.

Main result: `decomposeAmount_exact`, for every amount, threshold and order of the calls
that come of it: twenty rounds are enough, the chunks are single digits with zeros
behind them and rise, the dust comes at most once and is within the threshold, and all
of it together is the amount.
-/

namespace DarknetSpace

/-- The variables of the loop. -/
structure DigitLoop where
  amount : UInt64
  order : UInt64
  dust : UInt64
  isDustHandled : Bool

namespace DigitLoop

/-- Handing the dust out, if there is any and it has not been handed out. -/
def dustCalls (s : DigitLoop) : List DigitCall :=
  if ¬ s.isDustHandled ∧ 0 ≠ s.dust then [.dust s.dust.toNat] else []

def chunk (s : DigitLoop) : UInt64 := s.amount % 10 * s.order

/-- One round: the calls it makes and the variables behind it. -/
def round (dustThreshold : UInt64) (s : DigitLoop) : List DigitCall × DigitLoop :=
  if s.dust + s.chunk ≤ dustThreshold then
    ([], ⟨s.amount / 10, s.order * 10, s.dust + s.chunk, s.isDustHandled⟩)
  else
    (s.dustCalls ++ (if 0 ≠ s.chunk then [.chunk s.chunk.toNat] else []),
      ⟨s.amount / 10, s.order * 10, s.dust, s.isDustHandled || decide (0 ≠ s.dust)⟩)

/-- The loop and what follows it; nothing if `fuel` rounds are not enough. -/
def run (dustThreshold : UInt64) : (fuel : Nat) → DigitLoop → Option (List DigitCall)
  | 0, s => if 0 ≠ s.amount then none else some s.dustCalls
  | fuel + 1, s =>
    if 0 ≠ s.amount then
      (run dustThreshold fuel (s.round dustThreshold).2).map fun calls =>
        (s.round dustThreshold).1 ++ calls
    else some s.dustCalls

/-- The variables after some rounds. -/
def after (dustThreshold : UInt64) : (rounds : Nat) → DigitLoop → DigitLoop
  | 0, s => s
  | rounds + 1, s => if 0 ≠ s.amount then after dustThreshold rounds (s.round dustThreshold).2 else s

/-- What a round that is made computes with has not wrapped. -/
def Exact (s : DigitLoop) : Prop :=
  s.amount ≠ 0 →
    (∃ k, s.order.toNat = 10 ^ k) ∧
    s.chunk.toNat = s.amount.toNat % 10 * s.order.toNat ∧
    (s.dust + s.chunk).toNat = s.dust.toNat + s.chunk.toNat

end DigitLoop

/-- `decompose_amount_into_digits`, the calls to its handlers. -/
def decomposeAmount (fuel : Nat) (amount dustThreshold : UInt64) : Option (List DigitCall) :=
  if 0 = amount then some [] else DigitLoop.run dustThreshold fuel ⟨amount, 1, 0, false⟩

/-! ## Nothing wraps -/

namespace DigitLoop

/-- The order is a power of ten as long as there are digits, and the dust and the
digits fit. -/
structure Fits (s : DigitLoop) (k : Nat) : Prop where
  order : s.amount ≠ 0 → s.order.toNat = 10 ^ k
  sum : s.dust.toNat + s.amount.toNat * 10 ^ k < 2 ^ 64

theorem toNat_ne_zero {n : UInt64} (h : n ≠ 0) : n.toNat ≠ 0 :=
  fun hzero => h (UInt64.toNat_inj.1 hzero)

/-- Taking one digit off. -/
theorem digit_add (n p : Nat) : n % 10 * p + n / 10 * (p * 10) = n * p := by
  calc n % 10 * p + n / 10 * (p * 10) = (n % 10 + n / 10 * 10) * p := by ring
    _ = n * p := by rw [Nat.mod_add_div']

theorem Fits.exact {s : DigitLoop} {k : Nat} (h : s.Fits k) (hamount : s.amount ≠ 0) :
    s.chunk.toNat = s.amount.toNat % 10 * 10 ^ k ∧
      (s.dust + s.chunk).toNat = s.dust.toNat + s.chunk.toNat := by
  have horder := h.order hamount
  have hsum := h.sum
  have hdigit := digit_add s.amount.toNat (10 ^ k)
  have hchunk : s.chunk.toNat = s.amount.toNat % 10 * 10 ^ k := by
    unfold chunk
    rw [UInt64.toNat_mul, UInt64.toNat_mod, horder]
    exact Nat.mod_eq_of_lt (show s.amount.toNat % 10 * 10 ^ k < 2 ^ 64 by omega)
  refine ⟨hchunk, ?_⟩
  rw [UInt64.toNat_add]
  exact Nat.mod_eq_of_lt (by omega)

/-- The state a round leaves, with whatever dust and flag. -/
theorem fits_next {s : DigitLoop} {k : Nat} (h : s.Fits k) (hamount : s.amount ≠ 0) {dust : UInt64}
    (handled : Bool) (hdust : dust.toNat ≤ s.dust.toNat + s.chunk.toNat) :
    Fits ⟨s.amount / 10, s.order * 10, dust, handled⟩ (k + 1) := by
  have horder := h.order hamount
  have hsum := h.sum
  have hdigit := digit_add s.amount.toNat (10 ^ k)
  obtain ⟨hchunk, -⟩ := h.exact hamount
  have hdiv : (s.amount / 10).toNat = s.amount.toNat / 10 := UInt64.toNat_div _ _
  refine ⟨fun hmore => ?_, ?_⟩
  · -- another digit: the next power of ten is below what is left
    have hpos := toNat_ne_zero hmore
    have hle : 1 * (10 ^ k * 10) ≤ s.amount.toNat / 10 * (10 ^ k * 10) :=
      Nat.mul_le_mul_right _ (by simp only at hpos; omega)
    show (s.order * 10).toNat = 10 ^ (k + 1)
    rw [UInt64.toNat_mul, horder, Nat.pow_succ]
    exact Nat.mod_eq_of_lt (show 10 ^ k * 10 < 2 ^ 64 by omega)
  · show dust.toNat + (s.amount / 10).toNat * 10 ^ (k + 1) < 2 ^ 64
    rw [hdiv, Nat.pow_succ]
    omega

theorem Fits.round {s : DigitLoop} {k : Nat} (h : s.Fits k) (hamount : s.amount ≠ 0)
    (dustThreshold : UInt64) : (s.round dustThreshold).2.Fits (k + 1) := by
  unfold DigitLoop.round
  split
  · exact fits_next h hamount _ (h.exact hamount).2.le
  · exact fits_next h hamount _ (Nat.le_add_right _ _)

theorem Fits.after {s : DigitLoop} {k : Nat} (h : s.Fits k) (dustThreshold : UInt64)
    (rounds : Nat) : ∃ k', (s.after dustThreshold rounds).Fits k' := by
  induction rounds generalizing s k with
  | zero => exact ⟨k, h⟩
  | succ rounds ih =>
    unfold DigitLoop.after
    by_cases hamount : 0 ≠ s.amount
    · rw [if_pos hamount]
      exact ih (h.round hamount.symm dustThreshold)
    · rw [if_neg hamount]
      exact ⟨k, h⟩

theorem Fits.isExact {s : DigitLoop} {k : Nat} (h : s.Fits k) : s.Exact := by
  intro hamount
  obtain ⟨hchunk, hsum⟩ := h.exact hamount
  rw [← h.order hamount] at hchunk
  exact ⟨⟨k, h.order hamount⟩, hchunk, hsum⟩

/-! ## The loop in exact numbers -/

theorem dustCalls_eq (s : DigitLoop) :
    s.dustCalls = DarknetSpace.dustCalls s.dust.toNat s.isDustHandled := by
  have hzero : 0 ≠ s.dust ↔ s.dust.toNat ≠ 0 :=
    ⟨fun h => toNat_ne_zero h.symm, fun h hdust => h (by rw [← hdust]; rfl)⟩
  unfold dustCalls DarknetSpace.dustCalls
  simp only [hzero]

/-- The calls are those of the exact loop. -/
theorem Fits.run {s : DigitLoop} {k fuel : Nat} (h : s.Fits k) (dustThreshold : UInt64)
    (hfuel : s.amount.toNat < 10 ^ fuel) :
    s.run dustThreshold fuel = some (digitCalls dustThreshold.toNat fuel s.amount.toNat (10 ^ k)
      s.dust.toNat s.isDustHandled) := by
  induction fuel generalizing s k with
  | zero =>
    have hzero : s.amount = 0 := UInt64.toNat_inj.1 (Nat.lt_one_iff.1 hfuel)
    unfold DigitLoop.run digitCalls
    rw [if_neg (fun hne => hne hzero.symm), dustCalls_eq]
  | succ fuel ih =>
    unfold DigitLoop.run digitCalls
    by_cases hamount : s.amount = 0
    · have hzero : s.amount.toNat = 0 := by rw [hamount]; rfl
      rw [if_neg (fun hne => hne hamount.symm), if_pos hzero, dustCalls_eq]
    · obtain ⟨hchunk, hsum⟩ := h.exact hamount
      have hdiv : (s.amount / 10).toNat = s.amount.toNat / 10 := UInt64.toNat_div _ _
      have hless : (s.amount / 10).toNat < 10 ^ fuel := by
        rw [hdiv]
        have hpow : 10 ^ (fuel + 1) = 10 ^ fuel * 10 := Nat.pow_succ _ _
        omega
      have hzero : 0 ≠ s.chunk ↔ s.amount.toNat % 10 * 10 ^ k ≠ 0 := by
        rw [← hchunk]
        exact ⟨fun h => toNat_ne_zero h.symm, fun h hc => h (by rw [← hc]; rfl)⟩
      have hdust : (decide (0 ≠ s.dust)) = decide (s.dust.toNat ≠ 0) :=
        decide_eq_decide.2 ⟨fun h => toNat_ne_zero h.symm, fun h hd => h (by rw [← hd]; rfl)⟩
      have hle : s.dust + s.chunk ≤ dustThreshold ↔
          s.dust.toNat + s.amount.toNat % 10 * 10 ^ k ≤ dustThreshold.toNat := by
        rw [UInt64.le_iff_toNat_le, hsum, hchunk]
      rw [if_pos (Ne.symm hamount), if_neg (toNat_ne_zero hamount)]
      have hround := h.round hamount dustThreshold
      unfold DigitLoop.round at hround ⊢
      simp only
      by_cases hsmall : s.dust + s.chunk ≤ dustThreshold
      · rw [if_pos hsmall] at hround ⊢
        rw [if_pos (hle.1 hsmall), ih hround hless, Option.map_some, List.nil_append, hsum, hchunk,
          hdiv, Nat.pow_succ]
      · rw [if_neg hsmall] at hround ⊢
        rw [if_neg (fun hn => hsmall (hle.2 hn)), ih hround hless, Option.map_some, dustCalls_eq,
          hdust, hdiv, hchunk, Nat.pow_succ]
        simp only [hzero]

end DigitLoop

/-! ## What the exact loop makes of an amount -/

/-- A chunk is a digit that is not zero, times a power of ten. -/
def IsChunk (n : Nat) : Prop := ∃ d k, 1 ≤ d ∧ d ≤ 9 ∧ n = d * 10 ^ k

/-- Behind a digit that was too large the dust is handed out, or there is none. -/
theorem handled_or_empty (handled : Bool) (dust : Nat) :
    (handled || decide (dust ≠ 0)) = true ∨ dust = 0 := by
  by_cases hdust : dust = 0
  · exact .inr hdust
  · exact .inl (by rw [decide_eq_true hdust, Bool.or_true])

theorem dustCalls_handled {dust : Nat} {handled : Bool} (h : handled = true ∨ dust = 0) :
    dustCalls dust handled = [] := by
  unfold dustCalls
  rcases h with h | h
  · rw [if_neg (fun hn => hn.1 h)]
  · rw [if_neg (fun hn => hn.2 h)]

/-- A round behind the first digit that was too large: a zero makes no call, in
either branch, and any other digit is a chunk. -/
theorem digitCalls_step {threshold amount k dust : Nat} {handled : Bool} (fuel : Nat)
    (hamount : amount ≠ 0) (hclosed : threshold < dust + 10 ^ k)
    (hhandled : handled = true ∨ dust = 0) :
    ∃ handled' : Bool, (handled' = true ∨ dust = 0) ∧
      digitCalls threshold (fuel + 1) amount (10 ^ k) dust handled =
        (if amount % 10 * 10 ^ k ≠ 0 then [.chunk (amount % 10 * 10 ^ k)] else []) ++
          digitCalls threshold fuel (amount / 10) (10 ^ (k + 1)) dust handled' := by
  rw [digitCalls, if_neg hamount, ← Nat.pow_succ, dustCalls_handled hhandled]
  simp only [List.nil_append]
  by_cases hsmall : dust + amount % 10 * 10 ^ k ≤ threshold
  · have hzero : amount % 10 = 0 := by
      by_contra hdigit
      have : 1 * 10 ^ k ≤ amount % 10 * 10 ^ k := Nat.mul_le_mul_right _ (by omega)
      omega
    rw [if_pos hsmall, hzero, Nat.zero_mul, if_neg (fun hn => hn rfl), Nat.add_zero]
    exact ⟨handled, hhandled, rfl⟩
  · rw [if_neg hsmall]
    exact ⟨_, handled_or_empty handled dust, rfl⟩

/-- Once a digit was too large, every later one is a chunk. -/
theorem digitCalls_closed {threshold fuel amount k dust : Nat} {handled : Bool}
    (hfuel : amount < 10 ^ fuel) (hclosed : threshold < dust + 10 ^ k)
    (hhandled : handled = true ∨ dust = 0) :
    ∃ chunks : List Nat,
      digitCalls threshold fuel amount (10 ^ k) dust handled = chunks.map .chunk ∧
      (∀ n ∈ chunks, 10 ^ k ≤ n ∧ IsChunk n) ∧ chunks.Pairwise (· < ·) ∧
      chunks.sum = amount * 10 ^ k := by
  induction fuel generalizing amount k handled with
  | zero =>
    obtain rfl : amount = 0 := Nat.lt_one_iff.1 hfuel
    unfold digitCalls
    rw [dustCalls_handled hhandled]
    exact ⟨[], rfl, fun n hn => absurd hn List.not_mem_nil, .nil, (Nat.zero_mul _).symm⟩
  | succ fuel ih =>
    by_cases hamount : amount = 0
    · unfold digitCalls
      rw [if_pos hamount, dustCalls_handled hhandled, hamount]
      exact ⟨[], rfl, fun n hn => absurd hn List.not_mem_nil, .nil, (Nat.zero_mul _).symm⟩
    · have hpow : 10 ^ (k + 1) = 10 ^ k * 10 := Nat.pow_succ _ _
      have hfuel' : 10 ^ (fuel + 1) = 10 ^ fuel * 10 := Nat.pow_succ _ _
      have hdigit := DigitLoop.digit_add amount (10 ^ k)
      have hpos : 0 < 10 ^ k := Nat.pow_pos (by decide)
      obtain ⟨handled', hhandled', hround⟩ := digitCalls_step fuel hamount hclosed hhandled
      obtain ⟨chunks, hcalls, hall, hsorted, hsum⟩ :=
        @ih (amount / 10) (k + 1) _ (by omega) (by omega) hhandled'
      -- the chunks behind come from higher digits, so they are larger
      have hall' : ∀ n ∈ chunks, 10 ^ k ≤ n ∧ IsChunk n := fun n hn =>
        ⟨by have := (hall n hn).1; omega, (hall n hn).2⟩
      rw [hround, hcalls]
      by_cases hzero : amount % 10 * 10 ^ k = 0
      · rw [if_neg (fun hn => hn hzero)]
        exact ⟨chunks, rfl, hall', hsorted, by rw [hsum, hpow]; omega⟩
      · have hdigit0 : 1 ≤ amount % 10 := by
          by_contra hlt
          rw [show amount % 10 = 0 by omega, Nat.zero_mul] at hzero
          exact hzero rfl
        have hlarge : 1 * 10 ^ k ≤ amount % 10 * 10 ^ k := Nat.mul_le_mul_right _ hdigit0
        have hbelow : amount % 10 * 10 ^ k < 10 ^ k * 10 := by
          rw [Nat.mul_comm]
          exact Nat.mul_lt_mul_of_pos_left (Nat.mod_lt _ (by decide)) hpos
        rw [if_pos hzero]
        refine ⟨amount % 10 * 10 ^ k :: chunks, rfl, ?_, ?_, ?_⟩
        · intro n hn
          rcases List.mem_cons.1 hn with rfl | hn
          · exact ⟨by omega, amount % 10, k, hdigit0, by omega, rfl⟩
          · exact hall' n hn
        · refine hsorted.cons fun n hn => ?_
          have := (hall n hn).1
          omega
        · rw [List.sum_cons, hsum, hpow]
          omega

/-- The dust, if there is any, in the hands of its handler. -/
theorem dustCalls_open {threshold dust : Nat} (hdust : dust ≤ threshold) :
    ∃ dusts : List Nat, dustCalls dust false = dusts.map .dust ∧ dusts.length ≤ 1 ∧
      (∀ n ∈ dusts, 0 < n ∧ n ≤ threshold) ∧ dusts.sum = dust := by
  unfold dustCalls
  by_cases hzero : dust = 0
  · rw [if_neg (fun hn => hn.2 hzero)]
    exact ⟨[], rfl, Nat.zero_le _, nofun, hzero.symm⟩
  · rw [if_pos ⟨Bool.false_ne_true, hzero⟩]
    refine ⟨[dust], rfl, Nat.le_refl _, fun n hn => ?_, List.sum_singleton⟩
    rw [List.mem_singleton.1 hn]
    exact ⟨Nat.pos_of_ne_zero hzero, hdust⟩

/-- Up to the first digit that is too large the digits are collected. -/
theorem digitCalls_open {threshold fuel amount k dust : Nat} (hfuel : amount < 10 ^ fuel)
    (hdust : dust ≤ threshold) :
    ∃ dusts chunks : List Nat,
      digitCalls threshold fuel amount (10 ^ k) dust false = dusts.map .dust ++ chunks.map .chunk ∧
      dusts.length ≤ 1 ∧ (∀ n ∈ dusts, 0 < n ∧ n ≤ threshold) ∧ (∀ n ∈ chunks, IsChunk n) ∧
      chunks.Pairwise (· < ·) ∧ dusts.sum + chunks.sum = dust + amount * 10 ^ k := by
  induction fuel generalizing amount k dust with
  | zero =>
    obtain rfl : amount = 0 := Nat.lt_one_iff.1 hfuel
    obtain ⟨dusts, hdusts, hone, hsmall, hsum⟩ := dustCalls_open hdust
    refine ⟨dusts, [], ?_, hone, hsmall, nofun, .nil, ?_⟩
    · exact hdusts.trans (List.append_nil _).symm
    · rw [hsum, Nat.zero_mul]
      rfl
  | succ fuel ih =>
    unfold digitCalls
    by_cases hamount : amount = 0
    · obtain ⟨dusts, hdusts, hone, hsmall, hsum⟩ := dustCalls_open hdust
      rw [if_pos hamount, hamount]
      refine ⟨dusts, [], ?_, hone, hsmall, nofun, .nil, ?_⟩
      · exact hdusts.trans (List.append_nil _).symm
      · rw [hsum, Nat.zero_mul]
        rfl
    · have hpow : 10 ^ (k + 1) = 10 ^ k * 10 := Nat.pow_succ _ _
      have hfuel' : 10 ^ (fuel + 1) = 10 ^ fuel * 10 := Nat.pow_succ _ _
      have hdigit := DigitLoop.digit_add amount (10 ^ k)
      have hnine : amount % 10 * 10 ^ k ≤ 9 * 10 ^ k := Nat.mul_le_mul_right _ (by omega)
      rw [if_neg hamount, ← hpow]
      simp only
      -- while the digits fit they are gathered as dust; the first that does not closes it
      by_cases hfits : dust + amount % 10 * 10 ^ k ≤ threshold
      · rw [if_pos hfits]
        obtain ⟨dusts, chunks, hcalls, hone, hsmall, hall, hsorted, hsum⟩ :=
          @ih (amount / 10) (k + 1) _ (by omega) hfits
        refine ⟨dusts, chunks, hcalls, hone, hsmall, hall, hsorted, ?_⟩
        rw [hsum, hpow]
        omega
      · obtain ⟨dusts, hdusts, hone, hsmall, hsumDust⟩ := dustCalls_open hdust
        have hdigit0 : 1 ≤ amount % 10 := by
          by_contra hlt
          rw [show amount % 10 = 0 by omega, Nat.zero_mul] at hfits
          exact hfits hdust
        obtain ⟨chunks, hcalls, hall, hsorted, hsum⟩ :=
          @digitCalls_closed threshold fuel (amount / 10) (k + 1) _ _ (by omega) (by omega)
            (handled_or_empty false dust)
        rw [if_neg hfits, if_pos (by omega), hdusts, hcalls]
        refine ⟨dusts, amount % 10 * 10 ^ k :: chunks, ?_, hone, hsmall, ?_, ?_, ?_⟩
        · rw [List.append_assoc]
          rfl
        · intro n hn
          rcases List.mem_cons.1 hn with rfl | hn
          · exact ⟨amount % 10, k, hdigit0, by omega, rfl⟩
          · exact (hall n hn).2
        · refine hsorted.cons fun n hn => ?_
          have := (hall n hn).1
          omega
        · rw [hsumDust, List.sum_cons, hsum, hpow]
          omega

theorem DigitLoop.fits_start (amount : UInt64) : Fits ⟨amount, 1, 0, false⟩ 0 := by
  have hlt : amount.toNat < 2 ^ 64 := amount.toNat_lt
  refine ⟨fun _ => rfl, ?_⟩
  show (0 : UInt64).toNat + amount.toNat * 1 < 2 ^ 64
  rw [UInt64.toNat_zero]
  omega

/-- Twenty rounds are enough for 64 bits. The calls are dust, once at most and
within the threshold, and rising chunks, and together the amount; and what the
rounds compute with has not wrapped. -/
theorem decomposeAmount_exact (amount dustThreshold : UInt64) :
    (∃ dusts chunks : List Nat,
      decomposeAmount 20 amount dustThreshold = some (dusts.map .dust ++ chunks.map .chunk) ∧
      dusts.length ≤ 1 ∧ (∀ n ∈ dusts, 0 < n ∧ n ≤ dustThreshold.toNat) ∧
      (∀ n ∈ chunks, IsChunk n) ∧ chunks.Pairwise (· < ·) ∧
      dusts.sum + chunks.sum = amount.toNat) ∧
    ∀ rounds, (DigitLoop.after dustThreshold rounds ⟨amount, 1, 0, false⟩).Exact := by
  have hlt : amount.toNat < 2 ^ 64 := amount.toNat_lt
  have hfits := DigitLoop.fits_start amount
  refine ⟨?_, fun rounds => ?_⟩
  · unfold decomposeAmount
    by_cases hzero : 0 = amount
    · rw [if_pos hzero, ← hzero]
      exact ⟨[], [], rfl, Nat.zero_le _, nofun, nofun, .nil, rfl⟩
    · obtain ⟨dusts, chunks, hcalls, hone, hsmall, hall, hsorted, hsum⟩ :=
        @digitCalls_open dustThreshold.toNat 20 amount.toNat 0 0 (by omega) (Nat.zero_le _)
      rw [if_neg hzero, hfits.run dustThreshold (show amount.toNat < 10 ^ 20 by omega)]
      refine ⟨dusts, chunks, congrArg some hcalls, hone, hsmall, hall, hsorted, ?_⟩
      rw [hsum]
      omega
  · obtain ⟨k, hk⟩ := hfits.after dustThreshold rounds
    exact hk.isExact

/-- The exact loop of the other modules makes the same calls. -/
theorem decomposeAmount_calls (amount dustThreshold : UInt64) :
    decomposeAmount 20 amount dustThreshold = some (decomposeCalls amount dustThreshold) := by
  have hlt : amount.toNat < 2 ^ 64 := amount.toNat_lt
  have hfits := DigitLoop.fits_start amount
  unfold decomposeAmount
  by_cases hzero : 0 = amount
  · rw [if_pos hzero, ← hzero]
    rfl
  · rw [if_neg hzero, hfits.run dustThreshold (show amount.toNat < 10 ^ 20 by omega)]
    rfl

end DarknetSpace
