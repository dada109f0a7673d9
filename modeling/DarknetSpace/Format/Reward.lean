import DarknetSpace.Format.Money
import DarknetSpace.Format.IntUtil

/-!
# The block reward in machine words (`get_block_reward`)

A block above the median is paid less: the base reward goes through a 128-bit
product and two long divisions, with assertions on the way that turn a wrong
result into a refusal. Within the sizes the source admits nothing wraps and the
divisions are exact; one of the assertions wants the result to be smaller than
the base reward, which it cannot be once that has fallen to zero.

`portable_arithmetic_exact` is about the product and the quotient by hand, for all
operands. `block_reward_exact` is about the reward: for every size up to twice the
median it is the formula, and it is refused exactly when the emission has fallen to zero
and the block is penalised.
-/

namespace DarknetSpace

open Words

/-- What is left of the emission, cropped to whole dust thresholds. -/
def baseReward (alreadyGeneratedCoins : UInt64) : UInt64 :=
  let reward := (emissionSupply - alreadyGeneratedCoins) >>> emissionCurveCharacter
  reward - reward % defaultDustThreshold

/-- The median, made soft. -/
def softMedian (medianSize blockHeight : UInt64) : UInt64 :=
  let zone := UInt64.ofNat (getBlockGrantedFullRewardZone blockHeight.toNat)
  if medianSize < zone then zone else medianSize

/-- The penalty of a block above the median, with a product and a division that
take two words: `none` where an assertion fails. -/
def penalised (mul : UInt64 → UInt64 → UInt64 × UInt64)
    (div : UInt64 → UInt64 → UInt32 → (UInt64 × UInt64) × UInt32)
    (reward medianSize currentBlockSize : UInt64) : Option UInt64 :=
  let product := mul reward (currentBlockSize * (2 * medianSize - currentBlockSize))
  let once := (div product.2 product.1 medianSize.toUInt32).1
  let twice := (div once.1 once.2 medianSize.toUInt32).1
  if twice.1 ≠ 0 then none
  else if ¬ twice.2 < reward then none
  else some twice.2

/-- `get_block_reward` in `size_t` and `uint64_t`. -/
def getBlockRewardWith (mul : UInt64 → UInt64 → UInt64 × UInt64)
    (div : UInt64 → UInt64 → UInt32 → (UInt64 × UInt64) × UInt32)
    (medianSize currentBlockSize alreadyGeneratedCoins blockHeight : UInt64) : Option UInt64 :=
  let median := softMedian medianSize blockHeight
  if currentBlockSize ≤ median then some (baseReward alreadyGeneratedCoins)
  else if 2 * median < currentBlockSize then none
  else if ¬ median < 0xFFFFFFFF then none
  else if ¬ currentBlockSize < 0xFFFFFFFF then none
  else penalised mul div (baseReward alreadyGeneratedCoins) median currentBlockSize

def getBlockReward64 : UInt64 → UInt64 → UInt64 → UInt64 → Option UInt64 :=
  getBlockRewardWith mul128 div128By32

/-- The same where there is no 128-bit type. -/
def getBlockRewardManually : UInt64 → UInt64 → UInt64 → UInt64 → Option UInt64 :=
  getBlockRewardWith mul128Manually div128By32Manually

/-- The reward of a block as the two divisions leave it. -/
def rewardFor (base median size : Nat) : Nat :=
  if size ≤ median then base else base * size * (2 * median - size) / median / median

/-! ## The formula -/

/-- Past the median the size and what is left up to twice the median multiply to
less than the square of the median. -/
theorem penalty_lt {median size : Nat} (h : median < size) (hle : size ≤ 2 * median) :
    size * (2 * median - size) < median * median := by
  obtain ⟨excess, rfl⟩ := Nat.exists_eq_add_of_lt h
  obtain ⟨rest, hrest⟩ := Nat.exists_eq_add_of_le hle
  have hmedian : median = excess + 1 + rest := by omega
  rw [show 2 * median - (median + excess + 1) = rest by omega, hmedian]
  nlinarith [Nat.zero_le (excess * excess), Nat.zero_le (excess * rest)]

theorem penalty_anti {median size size' : Nat} (h : median ≤ size) (hle : size ≤ size')
    (htop : size' ≤ 2 * median) : size' * (2 * median - size') ≤ size * (2 * median - size) := by
  obtain ⟨more, rfl⟩ := Nat.exists_eq_add_of_le hle
  obtain ⟨rest, hrest⟩ := Nat.exists_eq_add_of_le htop
  rw [show 2 * median - (size + more) = rest by omega, show 2 * median - size = more + rest by omega]
  have hshort : more + rest ≤ size := by omega
  have := Nat.mul_le_mul_left more hshort
  nlinarith [Nat.zero_le (more * more), Nat.zero_le (more * rest)]

theorem rewardFor_above {base median size : Nat} (h : median < size) :
    rewardFor base median size = base * (size * (2 * median - size)) / (median * median) := by
  unfold rewardFor
  rw [if_neg (Nat.not_le.2 h), Nat.div_div_eq_div_mul, Nat.mul_assoc]

theorem rewardFor_lt {base median size : Nat} (h : median < size) (hle : size ≤ 2 * median)
    (hbase : 0 < base) : rewardFor base median size < base := by
  have hpos : 0 < median * median := Nat.mul_pos (by omega) (by omega)
  rw [rewardFor_above h, Nat.div_lt_iff_lt_mul hpos]
  exact Nat.mul_lt_mul_of_pos_left (penalty_lt h hle) hbase

theorem rewardFor_anti (base : Nat) {median size size' : Nat} (hle : size ≤ size')
    (htop : size' ≤ 2 * median) : rewardFor base median size' ≤ rewardFor base median size := by
  by_cases hsize' : size' ≤ median
  · unfold rewardFor
    rw [if_pos hsize', if_pos (by omega)]
  · have hover' : median < size' := Nat.not_le.1 hsize'
    by_cases hsize : size ≤ median
    · have hbase : rewardFor base median size = base := if_pos hsize
      rw [hbase]
      rcases Nat.eq_zero_or_pos base with rfl | hpos
      · rw [rewardFor_above hover', Nat.zero_mul, Nat.zero_div]
      · exact Nat.le_of_lt (rewardFor_lt hover' htop hpos)
    · have hover : median < size := Nat.not_le.1 hsize
      rw [rewardFor_above hover, rewardFor_above hover']
      exact Nat.div_le_div_right (Nat.mul_le_mul_left _ (penalty_anti (by omega) hle htop))

theorem rewardFor_twice {base median : Nat} (h : 0 < median) :
    rewardFor base median (2 * median) = 0 := by
  rw [rewardFor_above (by omega), Nat.sub_self, Nat.mul_zero, Nat.mul_zero, Nat.zero_div]

/-! ## The words -/

/-- A quotient of two words comes in two words. -/
theorem div128By32_fst (hi lo : UInt64) (divisor : UInt32) :
    two (div128By32 hi lo divisor).1.2 (div128By32 hi lo divisor).1.1 =
      two lo hi / divisor.toNat := by
  refine two_ofNat ?_
  exact Nat.lt_of_le_of_lt (Nat.div_le_self _ _) (two_lt lo hi)

/-- And with the remainder it makes up the dividend. -/
theorem div128By32_exact (hi lo : UInt64) {divisor : UInt32} (hpos : 0 < divisor.toNat) :
    two lo hi = two (div128By32 hi lo divisor).1.2 (div128By32 hi lo divisor).1.1 * divisor.toNat +
        (div128By32 hi lo divisor).2.toNat ∧
      (div128By32 hi lo divisor).2 < divisor := by
  have hlt := Nat.mod_lt (two lo hi) hpos
  have hrem : (div128By32 hi lo divisor).2.toNat = two lo hi % divisor.toNat := by
    apply UInt32.toNat_ofNat_of_lt'
    exact Nat.lt_trans hlt divisor.toNat_lt
  refine ⟨?_, ?_⟩
  · rw [div128By32_fst, hrem, Nat.div_add_mod']
  · rw [UInt32.lt_iff_toNat_lt, hrem]
    exact hlt

/-- The high halves alone do not come to more than the high word. -/
theorem mul128_high (multiplier multiplicand : UInt64) :
    hiDword multiplier * hiDword multiplicand ≤ (mul128 multiplier multiplicand).2 := by
  have hm := multiplier.toNat_lt
  have hn := multiplicand.toNat_lt
  have ha : (hiDword multiplier).toNat < 2 ^ 32 := by rw [hiDword_toNat]; omega
  have hc : (hiDword multiplicand).toNat < 2 ^ 32 := by rw [hiDword_toNat]; omega
  have hhigh : (mul128 multiplier multiplicand).2.toNat =
      multiplier.toNat * multiplicand.toNat / 2 ^ 64 := by
    apply UInt64.toNat_ofNat_of_lt'
    have := mul_toNat_lt multiplier multiplicand
    show _ < 2 ^ 64
    omega
  rw [UInt64.le_iff_toNat_le, (mul_toNat_of_lt ha hc).1, hhigh, hiDword_toNat, hiDword_toNat,
    Nat.le_div_iff_mul_le (by decide)]
  calc multiplier.toNat / 2 ^ 32 * (multiplicand.toNat / 2 ^ 32) * 2 ^ 64
      = multiplier.toNat / 2 ^ 32 * 2 ^ 32 * (multiplicand.toNat / 2 ^ 32 * 2 ^ 32) := by ring
    _ ≤ multiplier.toNat * multiplicand.toNat :=
      Nat.mul_le_mul (Nat.div_mul_le_self _ _) (Nat.div_mul_le_self _ _)

theorem softMedian_toNat (medianSize blockHeight : UInt64) :
    (softMedian medianSize blockHeight).toNat =
      max medianSize.toNat (getBlockGrantedFullRewardZone blockHeight.toNat) := by
  have hzone : (UInt64.ofNat (getBlockGrantedFullRewardZone blockHeight.toNat)).toNat =
      getBlockGrantedFullRewardZone blockHeight.toNat := by
    apply UInt64.toNat_ofNat_of_lt'
    unfold getBlockGrantedFullRewardZone
    split
    · decide
    · decide
  unfold softMedian
  simp only
  by_cases hlt : medianSize < UInt64.ofNat (getBlockGrantedFullRewardZone blockHeight.toNat)
  · rw [if_pos hlt, hzone]
    rw [UInt64.lt_iff_toNat_lt, hzone] at hlt
    omega
  · rw [if_neg hlt]
    rw [UInt64.lt_iff_toNat_lt, hzone] at hlt
    omega

/-- The product that must not wrap. -/
theorem penalty_toNat {median size : UInt64} (hmedian : median.toNat < 2 ^ 32 - 1)
    (h : median.toNat < size.toNat) (hle : size.toNat ≤ 2 * median.toNat) :
    (size * (2 * median - size)).toNat = size.toNat * (2 * median.toNat - size.toNat) ∧
      size.toNat * (2 * median.toNat - size.toNat) < 2 ^ 64 := by
  have hlt := penalty_lt h hle
  have hsquare : median.toNat * median.toNat < 2 ^ 32 * 2 ^ 32 :=
    Nat.mul_lt_mul'' (by omega) (by omega)
  have hfits : size.toNat * (2 * median.toNat - size.toNat) < 2 ^ 64 := by omega
  have htwice : (2 * median).toNat = 2 * median.toNat := by
    rw [UInt64.toNat_mul]
    exact Nat.mod_eq_of_lt (by show 2 * median.toNat < 2 ^ 64; omega)
  have hrest : (2 * median - size).toNat = 2 * median.toNat - size.toNat := by
    rw [UInt64.toNat_sub_of_le _ _ (UInt64.le_iff_toNat_le.2 (by omega)), htwice]
  refine ⟨?_, hfits⟩
  rw [UInt64.toNat_mul, hrest]
  exact Nat.mod_eq_of_lt hfits

/-- Both assertions hold exactly when there is a reward to take from. -/
theorem penalised_eq {reward median size : UInt64} (hmedian : median.toNat < 2 ^ 32 - 1)
    (h : median.toNat < size.toNat) (hle : size.toNat ≤ 2 * median.toNat) :
    penalised mul128 div128By32 reward median size =
      if reward = 0 then none
      else some (UInt64.ofNat (rewardFor reward.toNat median.toNat size.toNat)) := by
  have hreward := reward.toNat_lt
  have hpos : 0 < median.toNat := by omega
  have hdivisor : median.toUInt32.toNat = median.toNat := by
    rw [UInt64.toNat_toUInt32]
    exact Nat.mod_eq_of_lt (by omega)
  have hproduct := mulWide_eq reward (size * (2 * median - size))
  rw [(penalty_toNat hmedian h hle).1, ← Nat.mul_assoc] at hproduct
  have hle' : rewardFor reward.toNat median.toNat size.toNat ≤ reward.toNat := by
    have hanti := rewardFor_anti reward.toNat (Nat.le_of_lt h) hle
    exact hanti.trans (Nat.le_of_eq (if_pos (Nat.le_refl _)))
  unfold penalised
  simp only
  change two (mul128 reward (size * (2 * median - size))).1
    (mul128 reward (size * (2 * median - size))).2 = _ at hproduct
  generalize mul128 reward (size * (2 * median - size)) = product at *
  have honce := div128By32_fst product.2 product.1 median.toUInt32
  generalize (div128By32 product.2 product.1 median.toUInt32).1 = once at *
  have htwice := div128By32_fst once.1 once.2 median.toUInt32
  generalize (div128By32 once.1 once.2 median.toUInt32).1 = twice at *
  have hvalue : two twice.2 twice.1 = rewardFor reward.toNat median.toNat size.toNat := by
    rw [htwice, honce, hproduct, hdivisor]
    unfold rewardFor
    rw [if_neg (Nat.not_le.2 h)]
  have hlo := twice.2.toNat_lt
  unfold two at hvalue
  have hhi : twice.1 = 0 := by
    apply UInt64.toNat_inj.1
    show twice.1.toNat = 0
    omega
  rw [if_neg (not_not.2 hhi)]
  rw [hhi, show (0 : UInt64).toNat = 0 from rfl, Nat.mul_zero, Nat.add_zero] at hvalue
  by_cases hzero : reward = 0
  · rw [if_pos hzero, if_pos]
    rw [hzero, UInt64.lt_iff_toNat_lt]
    exact Nat.not_lt_zero _
  · have hbase : 0 < reward.toNat :=
      Nat.pos_of_ne_zero fun hnat => hzero (UInt64.toNat_inj.1 hnat)
    have hless := rewardFor_lt h hle hbase
    rw [if_neg hzero, if_neg, ← hvalue, UInt64.ofNat_toNat]
    rw [not_not, UInt64.lt_iff_toNat_lt, hvalue]
    exact hless

/-- The arithmetic by hand makes no difference. -/
theorem getBlockRewardManually_eq (medianSize currentBlockSize generated blockHeight : UInt64) :
    getBlockRewardManually medianSize currentBlockSize generated blockHeight =
      getBlockReward64 medianSize currentBlockSize generated blockHeight := by
  unfold getBlockRewardManually getBlockReward64 getBlockRewardWith
  simp only
  by_cases hsmall : currentBlockSize ≤ softMedian medianSize blockHeight
  · rw [if_pos hsmall, if_pos hsmall]
  · rw [if_neg hsmall, if_neg hsmall]
    by_cases hbig : 2 * softMedian medianSize blockHeight < currentBlockSize
    · rw [if_pos hbig, if_pos hbig]
    · rw [if_neg hbig, if_neg hbig]
      by_cases hmedian : softMedian medianSize blockHeight < 0xFFFFFFFF
      · rw [if_neg (not_not.2 hmedian), if_neg (not_not.2 hmedian)]
        split
        · rfl
        · -- the divisor is no zero: the zone of every height is not
          have hsoft := softMedian_toNat medianSize blockHeight
          have hzone : 0 < getBlockGrantedFullRewardZone blockHeight.toNat := by
            unfold getBlockGrantedFullRewardZone
            split
            · decide
            · decide
          have hdivisor : 0 < (softMedian medianSize blockHeight).toUInt32.toNat := by
            have hlt : (softMedian medianSize blockHeight).toNat < 2 ^ 32 - 1 :=
              UInt64.lt_iff_toNat_lt.1 hmedian
            rw [UInt64.toNat_toUInt32, Nat.mod_eq_of_lt (by omega), hsoft]
            omega
          unfold penalised
          simp only [mul128Manually_eq, div128By32Manually_eq _ _ hdivisor]
      · rw [if_pos hmedian, if_pos hmedian]

/-- **The arithmetic by hand is exact**: the product, with the assertion
`ac <= *product_hi`, and the quotient with its remainder are those of the
integers, so they are what a 128-bit type gives, and every platform comes to the
same reward. -/
theorem portable_arithmetic_exact (multiplier multiplicand dividendHi dividendLo : UInt64)
    {divisor : UInt32} (hdivisor : 1 ≤ divisor) :
    (two (mul128Manually multiplier multiplicand).1 (mul128Manually multiplier multiplicand).2 =
        multiplier.toNat * multiplicand.toNat ∧
      hiDword multiplier * hiDword multiplicand ≤ (mul128Manually multiplier multiplicand).2 ∧
      mul128Manually multiplier multiplicand = mul128 multiplier multiplicand) ∧
    (let result := div128By32Manually dividendHi dividendLo divisor
     two dividendLo dividendHi = two result.1.2 result.1.1 * divisor.toNat + result.2.toNat ∧
      result.2 < divisor ∧ result = div128By32 dividendHi dividendLo divisor) ∧
    ∀ medianSize currentBlockSize generated blockHeight,
      getBlockRewardManually medianSize currentBlockSize generated blockHeight =
        getBlockReward64 medianSize currentBlockSize generated blockHeight := by
  have hpos : 0 < divisor.toNat := UInt32.le_iff_toNat_le.1 hdivisor
  refine ⟨⟨?_, ?_, mul128Manually_eq _ _⟩, ?_, getBlockRewardManually_eq⟩
  · rw [mul128Manually_eq]
    exact mulWide_eq _ _
  · rw [mul128Manually_eq]
    exact mul128_high _ _
  · rw [div128By32Manually_eq _ _ hpos]
    obtain ⟨hexact, hlt⟩ := div128By32_exact dividendHi dividendLo hpos
    exact ⟨hexact, hlt, rfl⟩

theorem portable_arithmetic_exact_top :
    two (mul128Manually 0xFFFFFFFFFFFFFFFF 0xFFFFFFFFFFFFFFFF).1
        (mul128Manually 0xFFFFFFFFFFFFFFFF 0xFFFFFFFFFFFFFFFF).2 =
      0xFFFFFFFFFFFFFFFF * 0xFFFFFFFFFFFFFFFF ∧
    (div128By32Manually 0xFFFFFFFFFFFFFFFF 0xFFFFFFFFFFFFFFFF 0xFFFFFFFF).2 < 0xFFFFFFFF := by
  have h := portable_arithmetic_exact 0xFFFFFFFFFFFFFFFF 0xFFFFFFFFFFFFFFFF 0xFFFFFFFFFFFFFFFF
    0xFFFFFFFFFFFFFFFF (show (1 : UInt32) ≤ 0xFFFFFFFF by decide)
  exact ⟨h.1.1, h.2.1.2.1⟩

/-- Sizes the assertions admit. -/
structure AdmittedSizes (medianSize currentBlockSize blockHeight : UInt64) : Prop where
  median : max medianSize.toNat (getBlockGrantedFullRewardZone blockHeight.toNat) < 2 ^ 32 - 1
  size : currentBlockSize.toNat < 2 ^ 32 - 1

section

variable {medianSize currentBlockSize blockHeight : UInt64}

/-- What the words come to. -/
theorem getBlockReward64_eq (generated : UInt64) (h : AdmittedSizes medianSize currentBlockSize blockHeight) :
    getBlockReward64 medianSize currentBlockSize generated blockHeight =
      let median := max medianSize.toNat (getBlockGrantedFullRewardZone blockHeight.toNat)
      if 2 * median < currentBlockSize.toNat then none
      else if median < currentBlockSize.toNat ∧ baseReward generated = 0 then none
      else some (UInt64.ofNat
        (rewardFor (baseReward generated).toNat median currentBlockSize.toNat)) := by
  obtain ⟨hmedian, hsize⟩ := h
  have hsoft := softMedian_toNat medianSize blockHeight
  rw [← hsoft] at hmedian
  unfold getBlockReward64 getBlockRewardWith
  simp only
  rw [← hsoft]
  generalize softMedian medianSize blockHeight = median at *
  by_cases hsmall : currentBlockSize.toNat ≤ median.toNat
  · rw [if_pos (UInt64.le_iff_toNat_le.2 hsmall), if_neg (by omega), if_neg (by omega)]
    unfold rewardFor
    rw [if_pos hsmall, UInt64.ofNat_toNat]
  · have hover := Nat.not_le.1 hsmall
    have htwice : (2 * median).toNat = 2 * median.toNat := by
      rw [UInt64.toNat_mul]
      exact Nat.mod_eq_of_lt (by show 2 * median.toNat < 2 ^ 64; omega)
    have hmax : (0xFFFFFFFF : UInt64).toNat = 2 ^ 32 - 1 := rfl
    rw [if_neg (by rw [UInt64.le_iff_toNat_le]; exact hsmall)]
    simp only [UInt64.lt_iff_toNat_lt, htwice, hmax]
    by_cases hbig : 2 * median.toNat < currentBlockSize.toNat
    · rw [if_pos hbig, if_pos hbig]
    · rw [if_neg hbig, if_neg hbig, if_neg (not_not.2 hmedian), if_neg (not_not.2 hsize),
        penalised_eq hmedian hover (Nat.not_lt.1 hbig)]
      by_cases hzero : baseReward generated = 0
      · rw [if_pos hzero, if_pos ⟨hover, hzero⟩]
      · rw [if_neg hzero, if_neg fun hboth => hzero hboth.2]

/-- The reward other modules compute with is the one of the words. -/
theorem getBlockReward_eq (generated : UInt64) (h : AdmittedSizes medianSize currentBlockSize blockHeight) :
    getBlockReward medianSize.toNat currentBlockSize.toNat generated blockHeight.toNat =
      getBlockReward64 medianSize currentBlockSize generated blockHeight := by
  have hbase := (baseReward generated).toNat_lt
  rw [getBlockReward64_eq generated h]
  obtain ⟨hmedian, hsize⟩ := h
  unfold getBlockReward
  simp only
  rw [show (emissionSupply - generated) >>> emissionCurveCharacter -
    (emissionSupply - generated) >>> emissionCurveCharacter % defaultDustThreshold =
      baseReward generated from rfl]
  generalize max medianSize.toNat (getBlockGrantedFullRewardZone blockHeight.toNat) = median at *
  generalize currentBlockSize.toNat = size at *
  by_cases hsmall : size ≤ median
  · rw [if_pos hsmall, if_neg (by omega), if_neg (by omega)]
    unfold rewardFor
    rw [if_pos hsmall, UInt64.ofNat_toNat]
  · have hover := Nat.not_le.1 hsmall
    rw [if_neg hsmall]
    by_cases hbig : 2 * median < size
    · rw [if_pos hbig, if_pos hbig]
    · rw [if_neg hbig, if_neg hbig, if_neg (by omega)]
      have hformula : (baseReward generated).toNat * (size * (2 * median - size)) / median / median =
          rewardFor (baseReward generated).toNat median size := by
        unfold rewardFor
        rw [if_neg hsmall, Nat.mul_assoc]
      rw [hformula]
      by_cases hzero : baseReward generated = 0
      · have hnone : ¬ rewardFor (baseReward generated).toNat median size <
            (baseReward generated).toNat := by
          rw [hzero]
          exact Nat.not_lt_zero _
        rw [if_neg fun hboth => hnone hboth.2, if_pos ⟨hover, hzero⟩]
      · have hpos : 0 < (baseReward generated).toNat :=
          Nat.pos_of_ne_zero fun hnat => hzero (UInt64.toNat_inj.1 hnat)
        have hless := rewardFor_lt hover (Nat.not_lt.1 hbig) hpos
        rw [if_pos ⟨by omega, hless⟩, if_neg fun hboth => hzero hboth.2]

end

/-- The reward is the formula, and there is one up to twice the median, exactly
when the emission has not fallen to zero or the block is none that is penalised.
Nothing wraps on the way; a larger block is never paid more, and one of twice
the median nothing. -/
theorem block_reward_exact (medianSize currentBlockSize generated blockHeight : UInt64)
    (h : AdmittedSizes medianSize currentBlockSize blockHeight) :
    let median := max medianSize.toNat (getBlockGrantedFullRewardZone blockHeight.toNat)
    let size := currentBlockSize.toNat
    let base := (baseReward generated).toNat
    ((((getBlockReward64 medianSize currentBlockSize generated blockHeight).isSome = true ↔
          size ≤ 2 * median) ∧
        (size ≤ median → getBlockReward64 medianSize currentBlockSize generated blockHeight =
          some (baseReward generated)) ∧
        (median < size → size ≤ 2 * median →
          (getBlockReward64 medianSize currentBlockSize generated blockHeight).map UInt64.toNat =
            some (base * size * (2 * median - size) / median / median))) ↔
      (baseReward generated ≠ 0 ∨ size ≤ median ∨ 2 * median < size)) ∧
    (median < size → size ≤ 2 * median →
      (currentBlockSize * (2 * softMedian medianSize blockHeight - currentBlockSize)).toNat =
        size * (2 * median - size)) ∧
    (∀ largerSize : UInt64, currentBlockSize ≤ largerSize → largerSize.toNat < 2 ^ 32 - 1 →
      ∀ reward reward',
        getBlockReward64 medianSize currentBlockSize generated blockHeight = some reward →
        getBlockReward64 medianSize largerSize generated blockHeight = some reward' →
        reward' ≤ reward) ∧
    (size = 2 * median → ∀ reward,
      getBlockReward64 medianSize currentBlockSize generated blockHeight = some reward →
      reward = 0) := by
  have hsoft := softMedian_toNat medianSize blockHeight
  have hbase := (baseReward generated).toNat_lt
  have heq := getBlockReward64_eq generated h
  simp only at heq ⊢
  -- the penalised reward never exceeds the base reward, so it fits the word it is kept in
  have hle : ∀ size, rewardFor (baseReward generated).toNat
      (max medianSize.toNat (getBlockGrantedFullRewardZone blockHeight.toNat)) size < 2 ^ 64 := by
    intro size
    unfold rewardFor
    split
    · exact hbase
    · next hover =>
      by_cases hbig : size ≤ 2 * max medianSize.toNat (getBlockGrantedFullRewardZone blockHeight.toNat)
      · have hanti := rewardFor_anti (baseReward generated).toNat
          (Nat.le_of_lt (Nat.not_le.1 hover)) hbig
        unfold rewardFor at hanti
        rw [if_neg hover, if_pos (Nat.le_refl _)] at hanti
        exact Nat.lt_of_le_of_lt hanti hbase
      · rw [Nat.sub_eq_zero_of_le (by omega), Nat.mul_zero, Nat.zero_div, Nat.zero_div]
        exact Nat.two_pow_pos 64
  refine ⟨?_, ?_, ?_, ?_⟩
  · rw [heq]
    generalize max medianSize.toNat (getBlockGrantedFullRewardZone blockHeight.toNat) = median at *
    generalize currentBlockSize.toNat = size at *
    by_cases hbig : 2 * median < size
    · rw [if_pos hbig]
      refine ⟨fun _ => .inr (.inr hbig), fun _ => ⟨?_, ?_, ?_⟩⟩
      · exact ⟨fun hsome => (by cases hsome), fun hfits => (by omega)⟩
      · intro hsmall
        omega
      · intro _ hfits
        omega
    · rw [if_neg hbig]
      -- the assertion of the source: with nothing left to pay, a block above the median has no
      -- reward at all
      by_cases hlost : median < size ∧ baseReward generated = 0
      · rw [if_pos hlost]
        constructor
        · rintro ⟨htrue, -, -⟩
          have hsome := htrue.2 (Nat.not_lt.1 hbig)
          cases hsome
        · rintro (hpos | hsmall | hbig')
          · exact absurd hlost.2 hpos
          · omega
          · exact absurd hbig' hbig
      · rw [if_neg hlost]
        constructor
        · intro _
          by_cases hzero : baseReward generated = 0
          · exact .inr (.inl (Nat.not_lt.1 fun hover => hlost ⟨hover, hzero⟩))
          · exact .inl hzero
        · intro _
          refine ⟨⟨fun _ => Nat.not_lt.1 hbig, fun _ => rfl⟩, ?_, ?_⟩
          · intro hsmall
            unfold rewardFor
            rw [if_pos hsmall, UInt64.ofNat_toNat]
          · intro hover _
            rw [Option.map_some, UInt64.toNat_ofNat_of_lt' (hle size)]
            unfold rewardFor
            rw [if_neg (Nat.not_le.2 hover)]
  · intro hover hfits
    -- the product in `uint64_t`: the bound on the median keeps it from wrapping
    rw [← hsoft] at hover hfits ⊢
    have hmedian := h.median
    rw [← hsoft] at hmedian
    exact (penalty_toNat hmedian hover hfits).1
  · intro largerSize hlarger hadmitted reward reward' hreward hreward'
    have heq' := getBlockReward64_eq generated
      (⟨h.median, hadmitted⟩ : AdmittedSizes medianSize largerSize blockHeight)
    simp only at heq'
    rw [heq] at hreward
    rw [heq'] at hreward'
    split at hreward
    · cases hreward
    · split at hreward
      · cases hreward
      · split at hreward'
        · cases hreward'
        · next hfits' =>
          split at hreward'
          · cases hreward'
          · cases hreward
            cases hreward'
            rw [UInt64.le_iff_toNat_le, UInt64.toNat_ofNat_of_lt' (hle _),
              UInt64.toNat_ofNat_of_lt' (hle _)]
            exact rewardFor_anti _ (UInt64.le_iff_toNat_le.1 hlarger) (Nat.not_lt.1 hfits')
  -- at twice the median the penalty takes everything
  · intro htop reward hreward
    rw [heq, htop, if_neg (Nat.lt_irrefl _)] at hreward
    split at hreward
    · cases hreward
    · cases hreward
      have hpos : 0 < max medianSize.toNat (getBlockGrantedFullRewardZone blockHeight.toNat) := by
        have : 0 < getBlockGrantedFullRewardZone blockHeight.toNat := by
          unfold getBlockGrantedFullRewardZone
          split
          · decide
          · decide
        omega
      rw [rewardFor_twice hpos]
      rfl

/-- A block in the middle of the penalised sizes, early in the emission. -/
theorem block_reward_exact_early :
    (getBlockReward64 0 45000 0 1).map UInt64.toNat =
      some (140737488000000 * 45000 * (2 * 30000 - 45000) / 30000 / 30000) := by
  have hbase : (baseReward 0).toNat = 140737488000000 := by decide
  have hadmitted : AdmittedSizes 0 45000 1 := ⟨by decide, by decide⟩
  obtain ⟨hexact, -, -, -⟩ := block_reward_exact 0 45000 0 1 hadmitted
  obtain ⟨-, -, habove⟩ := hexact.2 (.inl (by decide))
  rw [hbase] at habove
  exact habove (by decide) (by decide)

/-- With the emission at its end a block one byte above the zone is refused. -/
theorem block_reward_refused_at_the_end :
    getBlockReward64 0 30001 emissionSupply 1 = none ∧
      (30001 : UInt64).toNat ≤ 2 * max (0 : UInt64).toNat (getBlockGrantedFullRewardZone 1) := by
  decide

end DarknetSpace
