import DarknetSpace.Format.Money
import DarknetSpace.Pool.TxPool

/-!
# Exact amounts

The sums of amounts without a word size, and how the 64-bit sums of the source
relate to them: always up to wrap-around, and exactly wherever an overflow
check passed.

Everything about money goes through these: the conservation of coins and the bound on
the supply need the exact sums, and the checks of the source are in the wrapped ones. A
fee is a difference of two sums that were checked (`PaysFee`), and the reward of a block
is at most what is left of the supply (`getBlockReward_le`).
-/

namespace DarknetSpace

/-- The amount an input spends; a coinbase input spends nothing. -/
def Txin.amountNat : Txin → Nat
  | .toKey amount _ _ => amount.toNat
  | _ => 0

def inputsTotal (tx : TransactionPrefix) : Nat := (tx.vin.map Txin.amountNat).sum
def outsTotal (tx : TransactionPrefix) : Nat := (tx.vout.map (·.amount.toNat)).sum

/-! ## Outputs -/

/-- A 64-bit sum is the exact one up to wrap-around. -/
theorem toNat_foldl_add_mod {α : Type} (f : α → UInt64) (l : List α) (money : UInt64) :
    (l.foldl (fun m a => m + f a) money).toNat =
      (money.toNat + (l.map fun a => (f a).toNat).sum) % 2 ^ 64 := by
  induction l generalizing money with
  | nil => simp [Nat.mod_eq_of_lt money.toNat_lt]
  | cons a rest ih =>
    rw [List.foldl_cons, ih, UInt64.toNat_add, List.map_cons, List.sum_cons]
    omega

/-- A partial sum that did not get smaller did not wrap. -/
theorem toNat_add_of_not_lt {money a : UInt64} (h : ¬ money > a + money) :
    (money + a).toNat = money.toNat + a.toNat := by
  have hle : money.toNat ≤ (a + money).toNat := UInt64.le_iff_toNat_le.1 (by simpa using h)
  rw [UInt64.toNat_add] at hle ⊢
  have := money.toNat_lt
  have := a.toNat_lt
  omega

theorem sumOverflowFree_bound {l : List UInt64} {money : UInt64}
    (h : sumOverflowFree money l = true) : money.toNat + (l.map UInt64.toNat).sum < 2 ^ 64 := by
  induction l generalizing money with
  | nil =>
    have := money.toNat_lt
    simpa using this
  | cons a rest ih =>
    unfold sumOverflowFree at h
    split at h
    · cases h
    · next hle =>
      have := ih h
      rw [toNat_add_of_not_lt hle] at this
      rw [List.map_cons, List.sum_cons]
      omega

theorem sumOverflowFree_iff {l : List UInt64} {money : UInt64} :
    sumOverflowFree money l = true ↔ money.toNat + (l.map UInt64.toNat).sum < 2 ^ 64 := by
  refine ⟨sumOverflowFree_bound, ?_⟩
  intro h
  induction l generalizing money with
  | nil => rfl
  | cons a rest ih =>
    rw [List.map_cons, List.sum_cons] at h
    have hadd : (money + a).toNat = money.toNat + a.toNat := by
      rw [UInt64.toNat_add]
      omega
    have hle : ¬ money > a + money := by
      rw [UInt64.add_comm, gt_iff_lt, UInt64.lt_iff_toNat_lt, hadd]
      omega
    unfold sumOverflowFree
    rw [if_neg hle]
    exact ih (by omega)

theorem checkOutsOverflow_iff {tx : TransactionPrefix} :
    checkOutsOverflow tx = true ↔ outsTotal tx < 2 ^ 64 := by
  unfold checkOutsOverflow outsTotal
  rw [sumOverflowFree_iff, List.map_map]
  show 0 + _ < _ ↔ _
  rw [Nat.zero_add]
  rfl

/-- The checked sum of outputs is exact. -/
theorem toNat_getOutsMoneyAmount {tx : TransactionPrefix} (h : checkOutsOverflow tx = true) :
    (getOutsMoneyAmount tx).toNat = outsTotal tx := by
  have hb := sumOverflowFree_bound h
  rw [List.map_map] at hb
  have hsum := toNat_foldl_add_mod TxOut.amount tx.vout 0
  unfold getOutsMoneyAmount outsTotal
  rw [hsum]
  exact (congrArg (· % 2 ^ 64) (Nat.zero_add _)).trans
    (Nat.mod_eq_of_lt (by simpa [Function.comp_def] using hb))

/-! ## Inputs -/

/-- The checked sum of inputs is exact. -/
theorem toNat_getInputsMoneyAmount_go {vin : List Txin} {money amount : UInt64}
    (h : checkInputsOverflow.go money vin = true)
    (ha : vin.foldlM (fun (money : UInt64) i =>
      match i with
      | .toKey amount _ _ => some (money + amount)
      | _ => none) money = some amount) :
    amount.toNat = money.toNat + (vin.map Txin.amountNat).sum := by
  induction vin generalizing money with
  | nil =>
    cases ha
    simp
  | cons i rest ih =>
    rw [List.foldlM_cons] at ha
    cases i with
    | toKey a offs ki =>
      unfold checkInputsOverflow.go at h
      split at h
      · cases h
      · next hle =>
        have := ih h ha
        rw [this, toNat_add_of_not_lt hle, List.map_cons, List.sum_cons, Txin.amountNat]
        omega
    | _ => cases ha

theorem toNat_getInputsMoneyAmount {tx : TransactionPrefix} {amount : UInt64}
    (h : checkInputsOverflow tx = true) (ha : getInputsMoneyAmount tx = some amount) :
    amount.toNat = inputsTotal tx := by
  have := toNat_getInputsMoneyAmount_go h ha
  rw [this]
  exact Nat.zero_add _

/-! ## Fees -/

/-- The fee of a transaction; no bound is assumed. -/
def feeTotal (tx : TransactionPrefix) : Nat := inputsTotal tx - outsTotal tx

/-- What the checks on an incoming transaction say of its amounts: neither sum
wraps, and it pays a fee. -/
structure PaysFee (tx : TransactionPrefix) : Prop where
  noOverflow : checkMoneyOverflow tx = true
  positive : outsTotal tx < inputsTotal tx

theorem paysFee_of_amounts {tx : TransactionPrefix} {amountIn : UInt64}
    (h : checkMoneyOverflow tx = true) (hin : getInputsMoneyAmount tx = some amountIn)
    (hlt : getOutsMoneyAmount tx < amountIn) : PaysFee tx := by
  refine ⟨h, ?_⟩
  rw [checkMoneyOverflow, Bool.and_eq_true] at h
  rw [← toNat_getInputsMoneyAmount h.1 hin, ← toNat_getOutsMoneyAmount h.2]
  exact UInt64.lt_iff_toNat_lt.1 hlt

/-- The fee the pool computes is the exact one. -/
theorem PaysFee.toNat_fee {tx : TransactionPrefix} (h : PaysFee tx) {i o : UInt64}
    (hc : TxMemoryPool.checkAmounts tx = some (i, o)) : (i - o).toNat = feeTotal tx := by
  have hov := h.noOverflow
  rw [checkMoneyOverflow, Bool.and_eq_true] at hov
  unfold TxMemoryPool.checkAmounts at hc
  split at hc
  · cases hc
  · split at hc
    · cases hc
    · next inputsAmount hin =>
      split at hc
      · cases hc
      · next hlt =>
        cases hc
        have hle : getOutsMoneyAmount tx ≤ i := UInt64.le_of_lt (UInt64.not_le.1 hlt)
        rw [UInt64.toNat_sub_of_le _ _ hle, toNat_getInputsMoneyAmount hov.1 hin,
          toNat_getOutsMoneyAmount hov.2]
        rfl

/-! ## Rewards -/

/-- A reward is at most what is left of the supply. -/
theorem getBlockReward_le {medianSize size height : Nat} {generated reward : UInt64}
    (h : getBlockReward medianSize size generated height = some reward) :
    reward.toNat ≤ (emissionSupply - generated).toNat := by
  have hbase : ∀ x : UInt64,
      ((x >>> emissionCurveCharacter) - (x >>> emissionCurveCharacter) % defaultDustThreshold).toNat
        ≤ x.toNat := by
    intro x
    have hmod : (x >>> emissionCurveCharacter) % defaultDustThreshold ≤ x >>> emissionCurveCharacter := by
      rw [UInt64.le_iff_toNat_le, UInt64.toNat_mod]
      exact Nat.mod_le _ _
    rw [UInt64.toNat_sub_of_le _ _ hmod, UInt64.toNat_shiftRight]
    refine (Nat.sub_le _ _).trans ?_
    rw [Nat.shiftRight_eq_div_pow]
    exact Nat.div_le_self _ _
  have := hbase (emissionSupply - generated)
  unfold getBlockReward at h
  simp only at h
  split at h
  · cases h
    exact this
  · split at h
    · cases h
    · split at h
      · cases h
      · split at h
        · next hlt =>
          cases h
          rw [UInt64.toNat_ofNat_of_lt' hlt.1]
          exact hlt.2.le.trans this
        · cases h

/-- So a reward never takes the coins in circulation past the supply. -/
theorem toNat_add_reward {medianSize size height : Nat} {generated reward : UInt64}
    (h : getBlockReward medianSize size generated height = some reward) :
    (generated + reward).toNat = generated.toNat + reward.toNat ∧
      generated.toNat + reward.toNat ≤ emissionSupply.toNat := by
  have hle := getBlockReward_le h
  have hg : generated ≤ emissionSupply := by
    rw [UInt64.le_iff_toNat_le]
    have := generated.toNat_lt
    have hs : emissionSupply.toNat = 2 ^ 64 - 1 := by decide
    omega
  rw [UInt64.toNat_sub_of_le _ _ hg] at hle
  have hgn := UInt64.le_iff_toNat_le.1 hg
  have hsum : generated.toNat + reward.toNat ≤ emissionSupply.toNat := by omega
  refine ⟨?_, hsum⟩
  rw [UInt64.toNat_add]
  exact Nat.mod_eq_of_lt (hsum.trans_lt emissionSupply.toNat_lt)

end DarknetSpace
