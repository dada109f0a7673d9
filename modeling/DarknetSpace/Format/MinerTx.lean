import DarknetSpace.Chain.Storage
import DarknetSpace.Format.Amounts
import DarknetSpace.Format.Archive
import Mathlib.Algebra.Order.BigOperators.Group.List

/-!
# Building a coinbase (`construct_miner_tx`)

The miner's share of the reward is taken apart into digits, one output for each,
with the dust below `DEFAULT_DUST_THRESHOLD` in one output and the last ones
joined when there are too many. From `CURRENCY_DONATIONS_START_BLOCKNO` on a
tenth of the reward, rounded down, goes to the donations and the royalty account
behind them.

Keys come from outside: `KeyDerivation` stands for the derivation of an output's
key, and the transaction key is an argument.

`MinerTx` says what a coinbase is that was built: its reward, its outputs, its extra
field. It is read back in three ways that matter: the extra field is parsed into the key
and the nonce (`parse_minerExtra`), the donation is found among the outputs
(`lookforDonation_minerOuts`), and the outputs add up to the reward and the fee.
-/

namespace DarknetSpace

/-- The public key of a transaction key, and the key of an output to an address
(`generate_key_derivation` and `derive_public_key`, which fail on an address
that is no point). -/
structure KeyDerivation where
  pub : SecretKey → PublicKey
  outKey : AccountPublicAddress → SecretKey → Nat → Option PublicKey

/-! ## Digits -/

/-- What is left over once the number is used up. -/
def dustLeft (dust : Nat) (isDustHandled : Bool) : List Nat :=
  if ¬ isDustHandled ∧ dust ≠ 0 then [dust] else []

/-- The loop of `decompose_amount_into_digits`, `fuel` digits at most. `order`
gets past 64 bits only behind the last digit. -/
def decomposeDigits (dustThreshold : Nat) :
    (fuel amount order dust : Nat) → (isDustHandled : Bool) → List Nat
  | 0, _, _, dust, isDustHandled => dustLeft dust isDustHandled
  | fuel + 1, amount, order, dust, isDustHandled =>
    if amount = 0 then dustLeft dust isDustHandled
    else
      let chunk := amount % 10 * order
      if dust + chunk ≤ dustThreshold then
        decomposeDigits dustThreshold fuel (amount / 10) (order * 10) (dust + chunk) isDustHandled
      else
        dustLeft dust isDustHandled ++ (if chunk ≠ 0 then [chunk] else []) ++
          decomposeDigits dustThreshold fuel (amount / 10) (order * 10) dust
            (isDustHandled || decide (dust ≠ 0))

/-- `decompose_amount_into_digits`; a `uint64_t` has 20 digits at most. -/
def decomposeAmountIntoDigits (amount dustThreshold : Nat) : List Nat :=
  decomposeDigits dustThreshold 20 amount 1 0 false

/-- `out_amounts[size - 2] += out_amounts.back()`, and the last one goes. -/
def joinLast (amounts : List Nat) : List Nat :=
  match amounts.reverse with
  | b :: a :: rest => ((a + b) :: rest).reverse
  | _ => amounts

/-- `while (max_outs < out_amounts.size())`, at most `fuel` times. -/
def joinOuts (maxOuts : Nat) : (fuel : Nat) → List Nat → List Nat
  | 0, amounts => amounts
  | fuel + 1, amounts =>
    if maxOuts < amounts.length then joinOuts maxOuts fuel (joinLast amounts) else amounts

/-- The amounts of the miner's outputs. -/
def minerAmounts (blockReward : UInt64) (maxOuts : Nat) : List Nat :=
  let amounts := decomposeAmountIntoDigits blockReward.toNat defaultDustThreshold.toNat
  joinOuts maxOuts amounts.length amounts

/-! ## The transaction -/

/-- `construct_tx_out`. -/
def constructTxOut (kd : KeyDerivation) (dest : AccountPublicAddress) (txSecKey : SecretKey)
    (outputIndex : Nat) (amount : UInt64) : Option TxOut :=
  (kd.outKey dest txSecKey outputIndex).map fun key => ⟨amount, .toKey key 0⟩

/-- The outputs of one payee, from index `no` on. -/
def constructOuts (kd : KeyDerivation) (dest : AccountPublicAddress) (txSecKey : SecretKey) :
    (no : Nat) → List UInt64 → Option (List TxOut)
  | _, [] => some []
  | no, amount :: rest =>
    match constructTxOut kd dest txSecKey no amount, constructOuts kd dest txSecKey (no + 1) rest with
    | some o, some os => some (o :: os)
    | _, _ => none

/-- `get_donation_parts`: the royalty and the donation. -/
def getDonationParts (totalDonations : UInt64) : UInt64 × UInt64 :=
  (totalDonations / 10, totalDonations - totalDonations / 10)

/-- The tenth that is given away. -/
def totalDonationAmount (height : Nat) (blockReward : UInt64) : UInt64 :=
  if height ≥ currencyDonationsStartBlockno then blockReward / 10 else 0

/-- `if(donations)` and `if(royalty)`: a part of nothing has no output. -/
def partAmounts (amount : UInt64) : List UInt64 := if amount ≠ 0 then [amount] else []

/-- `add_tx_pub_key_to_extra` and `add_tx_extra_nonce`. -/
def minerExtra (kd : KeyDerivation) (txkey : SecretKey) (extraNonce : Blob) : Option Blob :=
  let pubkey := txExtraTagPubkey :: bytesOfPod 32 (kd.pub txkey).toNat
  if extraNonce = [] then some pubkey
  else if extraNonce.length ≤ 255 then
    some (pubkey ++ txExtraTagUserData :: UInt8.ofNat extraNonce.length :: extraNonce)
  else none

/-- The outputs of a coinbase, payee by payee. -/
def minerOuts (env : Env) (kd : KeyDerivation) (txkey : SecretKey) (miner : AccountPublicAddress)
    (amounts : List UInt64) (donations royalty : UInt64) : Option (List TxOut) :=
  match constructOuts kd miner txkey 0 amounts with
  | none => none
  | some outs =>
    match constructOuts kd env.donationsAccount.mAccountAddress txkey amounts.length
        (partAmounts donations) with
    | none => none
    | some donationOuts =>
      (constructOuts kd env.royaltyAccount.mAccountAddress txkey
        (amounts.length + (partAmounts donations).length) (partAmounts royalty)).map fun royaltyOuts =>
          outs ++ donationOuts ++ royaltyOuts

/-- `construct_miner_tx` without an alias; `none` where the source returns
`false`. -/
def constructMinerTx (env : Env) (kd : KeyDerivation) (height medianSize : Nat)
    (alreadyGeneratedCoins : UInt64) (currentBlockSize : Nat) (fee : UInt64)
    (minerAddress : AccountPublicAddress) (txkey : SecretKey) (extraNonce : Blob)
    (maxOuts : Nat) : Option Transaction :=
  match minerExtra kd txkey extraNonce with
  | none => none
  | some extra =>
    match getBlockReward medianSize currentBlockSize alreadyGeneratedCoins height with
    | none => none
    | some blockReward =>
      let total := totalDonationAmount height blockReward
      let blockReward := blockReward - total + fee
      let (royalty, donations) := getDonationParts total
      if maxOuts < 1 then none
      else
        let outAmounts := (minerAmounts blockReward maxOuts).map UInt64.ofNat
        match minerOuts env kd txkey minerAddress outAmounts donations royalty with
        | none => none
        | some vout =>
          if outAmounts.foldl (· + ·) 0 ≠ blockReward then none
          else
            some
              { version := UInt64.ofNat currentTransactionVersion
                unlockTime := UInt64.ofNat (height + currencyMinedMoneyUnlockWindow)
                vin := [.gen (UInt64.ofNat height)]
                vout
                extra
                signatures := [] }

/-! ## The digits add up -/

theorem sum_dustLeft (dust : Nat) (handled : Bool) :
    (dustLeft dust handled).sum = if handled then 0 else dust := by
  unfold dustLeft
  cases handled with
  | true => simp
  | false =>
    by_cases hdust : dust = 0
    · simp [hdust]
    · simp [hdust]

/-- The digits still to come, and the dust that no output holds yet. Once the
dust has its output, no further digit is small enough to be added to it. -/
theorem sum_decomposeDigits {threshold fuel amount order dust : Nat} {handled : Bool}
    (hfuel : amount < 10 ^ fuel) (horder : 0 < order)
    (hhandled : handled = true → threshold < dust + order) :
    (decomposeDigits threshold fuel amount order dust handled).sum =
      (if handled then 0 else dust) + amount * order := by
  induction fuel generalizing amount order dust handled with
  | zero =>
    have hzero : amount = 0 := by
      rw [Nat.pow_zero] at hfuel
      omega
    unfold decomposeDigits
    rw [sum_dustLeft, hzero, Nat.zero_mul, Nat.add_zero]
  | succ fuel ih =>
    unfold decomposeDigits
    by_cases hzero : amount = 0
    · rw [if_pos hzero, sum_dustLeft, hzero, Nat.zero_mul, Nat.add_zero]
    · rw [if_neg hzero]
      have hfuel' : amount / 10 < 10 ^ fuel := by
        rw [Nat.pow_succ] at hfuel
        omega
      have hchunk : amount % 10 * order ≤ 9 * order := Nat.mul_le_mul_right _ (by omega)
      have hsplit : amount * order = amount % 10 * order + amount / 10 * (order * 10) := by
        have hmod : amount = amount % 10 + amount / 10 * 10 := (Nat.mod_add_div' amount 10).symm
        calc amount * order = (amount % 10 + amount / 10 * 10) * order := by rw [← hmod]
          _ = amount % 10 * order + amount / 10 * (order * 10) := by ring
      simp only
      by_cases hdust : dust + amount % 10 * order ≤ threshold
      · rw [if_pos hdust, ih hfuel' (by omega) (fun h => by have := hhandled h; omega), hsplit]
        cases handled with
        | false =>
          show dust + amount % 10 * order + _ = dust + (_ + _)
          omega
        | true =>
          -- the dust is paid out, so this digit is a zero
          have hsmall := hhandled rfl
          have hdigit : amount % 10 = 0 := by
            by_contra hne
            have : 1 * order ≤ amount % 10 * order := Nat.mul_le_mul_right _ (by omega)
            omega
          simp [hdigit]
      · rw [if_neg hdust, List.sum_append, List.sum_append, sum_dustLeft,
          ih hfuel' (by omega) (fun _ => by omega), hsplit]
        have hone : (if amount % 10 * order ≠ 0 then [amount % 10 * order] else []).sum =
            amount % 10 * order := by
          by_cases hchunk0 : amount % 10 * order = 0
          · simp [hchunk0]
          · simp [hchunk0]
        rw [hone]
        cases handled with
        | true => simp
        | false =>
          by_cases hnone : dust = 0
          · simp [hnone]
          · simp [hnone]
            omega

theorem sum_joinLast (amounts : List Nat) : (joinLast amounts).sum = amounts.sum := by
  unfold joinLast
  split
  · next b a rest hrev =>
    have hsum : amounts.sum = (b :: a :: rest).sum := by rw [← hrev, List.sum_reverse]
    rw [List.sum_reverse, hsum, List.sum_cons, List.sum_cons, List.sum_cons]
    omega
  · rfl

theorem sum_joinOuts (maxOuts fuel : Nat) (amounts : List Nat) :
    (joinOuts maxOuts fuel amounts).sum = amounts.sum := by
  induction fuel generalizing amounts with
  | zero => rfl
  | succ fuel ih =>
    unfold joinOuts
    split
    · rw [ih, sum_joinLast]
    · rfl

theorem sum_minerAmounts (blockReward : UInt64) (maxOuts : Nat) :
    (minerAmounts blockReward maxOuts).sum = blockReward.toNat := by
  have hlt := blockReward.toNat_lt
  have hpow : 2 ^ 64 ≤ 10 ^ 20 := by decide
  have hdigits : (decomposeDigits defaultDustThreshold.toNat 20 blockReward.toNat 1 0 false).sum =
      0 + blockReward.toNat * 1 :=
    sum_decomposeDigits (by omega) Nat.one_pos (by intro h; cases h)
  unfold minerAmounts decomposeAmountIntoDigits
  rw [sum_joinOuts, hdigits, Nat.zero_add, Nat.mul_one]

/-- As `uint64_t`s they are the same numbers. -/
theorem sum_toNat_minerAmounts (blockReward : UInt64) (maxOuts : Nat) :
    (((minerAmounts blockReward maxOuts).map UInt64.ofNat).map UInt64.toNat).sum =
      blockReward.toNat := by
  have hlt := blockReward.toNat_lt
  have hsum := sum_minerAmounts blockReward maxOuts
  have hsame : ((minerAmounts blockReward maxOuts).map UInt64.ofNat).map UInt64.toNat =
      minerAmounts blockReward maxOuts := by
    rw [List.map_map]
    refine (List.map_congr_left fun a ha => ?_).trans (List.map_id _)
    have hle : a ≤ (minerAmounts blockReward maxOuts).sum := List.single_le_sum (by simp) a ha
    exact UInt64.toNat_ofNat_of_lt' (show a < 2 ^ 64 by omega)
  rw [hsame, hsum]

/-! ## The outputs -/

section

variable {kd : KeyDerivation} {dest : AccountPublicAddress} {sec : SecretKey}

theorem constructOuts_amounts {no : Nat} {amounts : List UInt64} {outs : List TxOut}
    (h : constructOuts kd dest sec no amounts = some outs) : outs.map (·.amount) = amounts := by
  induction amounts generalizing no outs with
  | nil =>
    cases h
    rfl
  | cons a rest ih =>
    unfold constructOuts at h
    split at h
    · next o os ho hos =>
      cases h
      obtain ⟨key, -, rfl⟩ := Option.map_eq_some_iff.1 ho
      rw [List.map_cons, ih hos]
    · cases h

/-- Every output has the key derived for its index. -/
theorem constructOuts_key {no : Nat} {amounts : List UInt64} {outs : List TxOut}
    (h : constructOuts kd dest sec no amounts = some outs) {i : Nat} {o : TxOut}
    (hi : outs[i]? = some o) :
    ∃ key, kd.outKey dest sec (no + i) = some key ∧ o.target = .toKey key 0 := by
  induction amounts generalizing no outs i with
  | nil =>
    cases h
    cases hi
  | cons a rest ih =>
    unfold constructOuts at h
    split at h
    · next o' os ho hos =>
      cases h
      cases i with
      | zero =>
        cases hi
        obtain ⟨key, hkey, rfl⟩ := Option.map_eq_some_iff.1 ho
        exact ⟨key, hkey, rfl⟩
      | succ i =>
        rw [List.getElem?_cons_succ] at hi
        obtain ⟨key, hkey, htarget⟩ := ih hos hi
        exact ⟨key, by rw [← hkey, Nat.add_assoc, Nat.add_comm 1 i], htarget⟩
    · cases h

end

/-- The amounts of a coinbase, in order. -/
theorem minerOuts_amounts {env : Env} {kd : KeyDerivation} {txkey : SecretKey}
    {miner : AccountPublicAddress} {amounts : List UInt64} {donations royalty : UInt64}
    {vout : List TxOut} (h : minerOuts env kd txkey miner amounts donations royalty = some vout) :
    vout.map (·.amount) = amounts ++ partAmounts donations ++ partAmounts royalty := by
  unfold minerOuts at h
  split at h
  · cases h
  · next outs houts =>
    split at h
    · cases h
    · next donationOuts hdonations =>
      obtain ⟨royaltyOuts, hroyalty, rfl⟩ := Option.map_eq_some_iff.1 h
      rw [List.map_append, List.map_append, constructOuts_amounts houts,
        constructOuts_amounts hdonations, constructOuts_amounts hroyalty]

theorem sum_toNat_partAmounts (amount : UInt64) :
    ((partAmounts amount).map UInt64.toNat).sum = amount.toNat := by
  unfold partAmounts
  split
  · exact Nat.add_zero _
  · next hzero =>
    rw [Classical.not_not.1 hzero]
    rfl

theorem getDonationParts_sum (total : UInt64) :
    (getDonationParts total).2.toNat + (getDonationParts total).1.toNat = total.toNat := by
  have hle : total / 10 ≤ total := by
    rw [UInt64.le_iff_toNat_le, UInt64.toNat_div]
    exact Nat.div_le_self _ _
  show (total - total / 10).toNat + (total / 10).toNat = total.toNat
  rw [UInt64.toNat_sub_of_le _ _ hle, Nat.sub_add_cancel (UInt64.le_iff_toNat_le.1 hle)]

/-- What `construct_miner_tx` puts together when it succeeds. -/
structure MinerTx (env : Env) (kd : KeyDerivation) (height medianSize : Nat) (generated : UInt64)
    (size : Nat) (fee : UInt64) (miner : AccountPublicAddress) (txkey : SecretKey)
    (extraNonce : Blob) (maxOuts : Nat) (reward : UInt64) (tx : Transaction) : Prop where
  rewarded : getBlockReward medianSize size generated height = some reward
  extra : minerExtra kd txkey extraNonce = some tx.extra
  vin : tx.vin = [.gen (UInt64.ofNat height)]
  unlockTime : tx.unlockTime = UInt64.ofNat (height + currencyMinedMoneyUnlockWindow)
  vout : minerOuts env kd txkey miner
    ((minerAmounts (reward - totalDonationAmount height reward + fee) maxOuts).map UInt64.ofNat)
    (getDonationParts (totalDonationAmount height reward)).2
    (getDonationParts (totalDonationAmount height reward)).1 = some tx.vout

theorem constructMinerTx_some {env : Env} {kd : KeyDerivation} {height medianSize size maxOuts : Nat}
    {generated fee : UInt64} {miner : AccountPublicAddress} {txkey : SecretKey} {extraNonce : Blob}
    {tx : Transaction}
    (h : constructMinerTx env kd height medianSize generated size fee miner txkey extraNonce maxOuts
      = some tx) :
    ∃ reward, MinerTx env kd height medianSize generated size fee miner txkey extraNonce maxOuts
      reward tx := by
  unfold constructMinerTx at h
  split at h
  · cases h
  · next extra hextra =>
    split at h
    · cases h
    · next reward hreward =>
      simp only at h
      split at h
      · cases h
      · split at h
        · cases h
        · next vout hvout =>
          split at h
          · cases h
          · cases h
            exact ⟨reward, hreward, hextra, rfl, rfl, hvout⟩

theorem constructMinerTx_version {env : Env} {kd : KeyDerivation}
    {height medianSize size maxOuts : Nat} {generated fee : UInt64} {miner : AccountPublicAddress}
    {txkey : SecretKey} {extraNonce : Blob} {tx : Transaction}
    (h : constructMinerTx env kd height medianSize generated size fee miner txkey extraNonce maxOuts
      = some tx) : tx.version = UInt64.ofNat currentTransactionVersion := by
  unfold constructMinerTx at h
  split at h
  · cases h
  · split at h
    · cases h
    · simp only at h
      split at h
      · cases h
      · split at h
        · cases h
        · split at h
          · cases h
          · cases h
            rfl

namespace MinerTx

variable {env : Env} {kd : KeyDerivation} {height medianSize size maxOuts : Nat}
  {generated fee reward : UInt64} {miner : AccountPublicAddress} {txkey : SecretKey}
  {extraNonce : Blob} {tx : Transaction}

/-- The miner's share and the tenth, as exact numbers. -/
theorem outsTotal_eq (h : MinerTx env kd height medianSize generated size fee miner txkey extraNonce
    maxOuts reward tx) :
    outsTotal tx.toTransactionPrefix =
      (reward - totalDonationAmount height reward + fee).toNat +
        (totalDonationAmount height reward).toNat := by
  have hparts := getDonationParts_sum (totalDonationAmount height reward)
  have hsum : outsTotal tx.toTransactionPrefix = ((tx.vout.map (·.amount)).map UInt64.toNat).sum := by
    rw [List.map_map]
    rfl
  rw [hsum, minerOuts_amounts h.vout, List.map_append, List.map_append, List.sum_append,
    List.sum_append, sum_toNat_minerAmounts, sum_toNat_partAmounts, sum_toNat_partAmounts]
  omega

/-- As `uint64_t`s they add up to the reward and the fees. -/
theorem outsMoney_eq (h : MinerTx env kd height medianSize generated size fee miner txkey extraNonce
    maxOuts reward tx) : getOutsMoneyAmount tx.toTransactionPrefix = reward + fee := by
  have hmod : (getOutsMoneyAmount tx.toTransactionPrefix).toNat =
      ((0 : UInt64).toNat + outsTotal tx.toTransactionPrefix) % 2 ^ 64 :=
    toNat_foldl_add_mod TxOut.amount tx.vout 0
  have hexact := h.outsTotal_eq
  have hcancel : reward + fee =
      reward - totalDonationAmount height reward + fee + totalDonationAmount height reward := by
    rw [UInt64.add_assoc, UInt64.add_comm fee, ← UInt64.add_assoc, UInt64.sub_add_cancel]
  rw [← UInt64.toNat_inj, hmod, hexact, hcancel, UInt64.toNat_add]
  exact congrArg (· % 2 ^ 64) (Nat.zero_add _)

end MinerTx

/-! ## The extra field -/

theorem byteAt_of_getElem? {v : Blob} {i : Nat} {b : UInt8} (h : v[i]? = some b) :
    byteAt v i = .ok b := by
  unfold byteAt
  rw [h]

/-- Once the padding has started, zeros are walked over to the end. -/
theorem extraLoop_padding {extra : Blob} {w : ExtraWalk} {fuel : Nat}
    (hzero : ∀ j, w.i ≤ j → j < extra.length → extra[j]? = some 0) (hi : w.i ≤ extra.length)
    (hstarted : w.paddingStarted = true) (hfuel : extra.length < w.i + fuel) :
    ∃ w', extraLoop extra fuel w = .ok (true, w') ∧ w'.info = w.info := by
  induction fuel generalizing w with
  | zero => omega
  | succ fuel ih =>
    unfold extraLoop
    by_cases hend : w.i = extra.length
    · rw [if_pos hend]
      exact ⟨w, rfl, rfl⟩
    · rw [if_neg hend]
      have hstep : extraStep extra w = .ok (true, { w with i := w.i + 1 }) := by
        unfold extraStep
        rw [byteAt_of_getElem? (hzero w.i (Nat.le_refl _) (by omega))]
        simp [bind, Except.bind, pure, Except.pure, hstarted]
      rw [hstep]
      exact ih (w := { w with i := w.i + 1 }) (fun j hj => hzero j (by have : w.i + 1 ≤ j := hj; omega))
        (by show w.i + 1 ≤ extra.length; omega) hstarted
        (by show extra.length < w.i + 1 + fuel; omega)

/-- Zeros behind the last field change nothing. -/
theorem extraLoop_zeros {extra : Blob} {w : ExtraWalk} {fuel : Nat}
    (hzero : ∀ j, w.i ≤ j → j < extra.length → extra[j]? = some 0) (hi : w.i ≤ extra.length)
    (hnot : w.paddingStarted = false) (hfuel : extra.length + 1 < w.i + fuel) :
    ∃ w', extraLoop extra fuel w = .ok (true, w') ∧ w'.info = w.info := by
  cases fuel with
  | zero => omega
  | succ fuel =>
    unfold extraLoop
    by_cases hend : w.i = extra.length
    · rw [if_pos hend]
      exact ⟨w, rfl, rfl⟩
    · rw [if_neg hend]
      have hstep : extraStep extra w = .ok (true, { w with paddingStarted := true }) := by
        unfold extraStep
        rw [byteAt_of_getElem? (hzero w.i (Nat.le_refl _) (by omega))]
        simp [bind, Except.bind, pure, Except.pure, hnot, txExtraTagPubkey, txExtraTagUserData,
          txExtraTagAlias]
      rw [hstep]
      exact extraLoop_padding (w := { w with paddingStarted := true }) hzero hi rfl
        (by show extra.length < w.i + fuel; omega)

/-- The walk behind a public key at the front. -/
def ExtraWalk.behindKey (key : PublicKey) : ExtraWalk :=
  { ExtraWalk.start with
    i := 33
    txExtraTagPubkeyFound := true
    info := { TxExtraInfo.empty with mTxPubKey := key } }

/-- The bytes behind `before` are read as they are. -/
theorem bytesAt_middle {extra before data rest : Blob} {i : Nat}
    (hextra : extra = before ++ data ++ rest) (hi : i = before.length) :
    bytesAt extra i data.length = .ok data := by
  have hroom : i + data.length ≤ extra.length := by
    rw [hextra, List.length_append, List.length_append]
    omega
  unfold bytesAt
  rw [if_pos hroom, hextra, hi, List.append_assoc, List.drop_left, List.take_left]

theorem podAt_middle {extra before rest : Blob} {i n : Nat} (v : BitVec (8 * n))
    (hextra : extra = before ++ bytesOfPod n v.toNat ++ rest) (hi : i = before.length) :
    podAt n extra i = .ok v := by
  have hbytes := bytesAt_middle hextra hi
  rw [bytesOfPod_length] at hbytes
  have hlt : v.toNat < 256 ^ n := by
    have hv := v.isLt
    rwa [Nat.pow_mul] at hv
  unfold podAt
  rw [hbytes]
  simp only [bind, Except.bind, pure, Except.pure, podOfBytes_bytesOfPod hlt]
  rw [BitVec.ofNat_toNat, BitVec.setWidth_eq]

/-- The first public key of the field is read. -/
theorem extraStep_pubkey_behind {extra before rest : Blob} {w : ExtraWalk} (key : PublicKey)
    (hextra : extra = before ++ (txExtraTagPubkey :: bytesOfPod 32 key.toNat) ++ rest)
    (hi : w.i = before.length) (hnot : w.paddingStarted = false)
    (hfirst : w.txExtraTagPubkeyFound = false) :
    extraStep extra w = .ok (true, { w with
      i := w.i + 33
      txExtraTagPubkeyFound := true
      info := { w.info with mTxPubKey := key } }) := by
  have hlen := bytesOfPod_length 32 key.toNat
  have htag : byteAt extra w.i = .ok txExtraTagPubkey := by
    refine byteAt_of_getElem? ?_
    rw [hextra, hi]
    simp
  have hpod : podAt 32 extra (w.i + 1) = .ok key := by
    refine @podAt_middle extra (before ++ [txExtraTagPubkey]) rest _ 32 key ?_ ?_
    · rw [hextra]
      simp
    · rw [hi, List.length_append, List.length_singleton]
  have hroom : ¬(extra.length - 1 - w.i < 32 ∨ w.txExtraTagPubkeyFound = true) := by
    rw [hextra, hi, hfirst]
    simp [hlen]
  unfold extraStep
  rw [htag]
  simp only [bind, Except.bind, pure, Except.pure]
  rw [if_neg (show ¬w.paddingStarted = true by rw [hnot]; exact Bool.false_ne_true), if_pos trivial,
    if_neg hroom, hpod]

/-- The public key in front is read back. -/
theorem extraStep_pubkey (key : PublicKey) (rest : Blob) :
    extraStep (txExtraTagPubkey :: bytesOfPod 32 key.toNat ++ rest) ExtraWalk.start =
      .ok (true, ExtraWalk.behindKey key) :=
  @extraStep_pubkey_behind _ [] rest ExtraWalk.start key rfl rfl rfl rfl

/-- And so is the nonce behind it. -/
theorem extraStep_userData {extra before nonce rest : Blob} {w : ExtraWalk}
    (hextra : extra = before ++ (txExtraTagUserData :: UInt8.ofNat nonce.length :: nonce) ++ rest)
    (hi : w.i = before.length) (hlen : nonce.length ≤ 255) (hnot : w.paddingStarted = false)
    (hfirst : w.txExtraUserDataFound = false) :
    extraStep extra w = .ok (true, { w with
      i := w.i + 2 + nonce.length
      txExtraUserDataFound := true
      info := { w.info with
        mUserDataBlob :=
          if UInt8.ofNat nonce.length ≠ 0 then nonce else w.info.mUserDataBlob } }) := by
  have hbyte : (UInt8.ofNat nonce.length).toNat = nonce.length :=
    UInt8.toNat_ofNat_of_lt' (show _ < 256 by omega)
  have htag : byteAt extra w.i = .ok txExtraTagUserData := by
    refine byteAt_of_getElem? ?_
    rw [hextra, hi]
    simp
  have hsize : byteAt extra (w.i + 1) = .ok (UInt8.ofNat nonce.length) := by
    refine byteAt_of_getElem? ?_
    rw [hextra, hi]
    simp
  have htotal : extra.length = before.length + 2 + nonce.length + rest.length := by
    rw [hextra]
    simp
    omega
  have hdata : bytesAt extra (w.i + 2) nonce.length = .ok nonce := by
    refine @bytesAt_middle extra (before ++ [txExtraTagUserData, UInt8.ofNat nonce.length]) nonce rest _
      ?_ ?_
    · rw [hextra]
      simp
    · rw [hi, List.length_append]
      rfl
  unfold extraStep
  rw [htag]
  simp only [bind, Except.bind, pure, Except.pure]
  rw [if_neg (show ¬w.paddingStarted = true by rw [hnot]; exact Bool.false_ne_true),
    if_neg (show ¬txExtraTagUserData = txExtraTagPubkey by decide), if_pos trivial,
    if_neg (show ¬(w.txExtraUserDataFound = true ∨ extra.length - 1 - w.i < 1) by
      rw [hfirst]; simp; omega), hsize]
  simp only [hbyte]
  rw [if_neg (show ¬extra.length - 1 - (w.i + 1) < nonce.length by omega), hdata]

theorem getElem?_zeros {extra : Blob} {k j : Nat} (hj : extra.length ≤ j)
    (hlt : j < (extra ++ List.replicate k (0 : UInt8)).length) :
    (extra ++ List.replicate k (0 : UInt8))[j]? = some 0 := by
  rw [List.length_append, List.length_replicate] at hlt
  rw [List.getElem?_append_right hj, List.getElem?_replicate, if_pos (by omega)]

theorem extraLoop_pubkey (key : PublicKey) (rest : Blob) (fuel : Nat) :
    extraLoop (txExtraTagPubkey :: bytesOfPod 32 key.toNat ++ rest) (fuel + 1) ExtraWalk.start =
      extraLoop (txExtraTagPubkey :: bytesOfPod 32 key.toNat ++ rest) fuel
        (ExtraWalk.behindKey key) := by
  have hne : ¬ExtraWalk.start.i =
      (txExtraTagPubkey :: bytesOfPod 32 key.toNat ++ rest).length := by
    simp [ExtraWalk.start]
  conv => lhs; unfold extraLoop
  rw [if_neg hne, extraStep_pubkey]

/-- The walk over a miner's extra field and any number of zeros behind it. -/
theorem extraLoop_minerExtra {kd : KeyDerivation} {txkey : SecretKey} {extraNonce extra : Blob}
    (h : minerExtra kd txkey extraNonce = some extra) (k : Nat) {fuel : Nat}
    (hfuel : extra.length + k + 2 < fuel) :
    ∃ w, extraLoop (extra ++ List.replicate k 0) (fuel + 1) ExtraWalk.start = .ok (true, w) ∧
      w.info.mTxPubKey = kd.pub txkey ∧ w.info.mAlias = AliasInfo.empty := by
  have hkeylen : (txExtraTagPubkey :: bytesOfPod 32 (kd.pub txkey).toNat).length = 33 := by
    rw [List.length_cons, bytesOfPod_length]
  unfold minerExtra at h
  split at h
  · cases h
    -- no nonce: the key, then the zeros behind it
    rw [extraLoop_pubkey]
    have hlen : ((txExtraTagPubkey :: bytesOfPod 32 (kd.pub txkey).toNat) ++
        List.replicate k (0 : UInt8)).length = 33 + k := by
      rw [List.length_append, hkeylen, List.length_replicate]
    obtain ⟨w, hw, hinfo⟩ := extraLoop_zeros (w := ExtraWalk.behindKey (kd.pub txkey))
      (fun j hj hlt => getElem?_zeros (k := k) (by rw [hkeylen]; exact hj) hlt)
      (by rw [hlen]; show 33 ≤ 33 + k; omega) rfl
      (show _ < 33 + fuel by rw [hlen]; rw [hkeylen] at hfuel; omega)
    exact ⟨w, hw, by rw [hinfo]; rfl, by rw [hinfo]; rfl⟩
  · split at h
    · next hnonempty hshort =>
      cases h
      -- the key, the entry of the nonce, then the zeros
      generalize hbefore : txExtraTagPubkey :: bytesOfPod 32 (kd.pub txkey).toNat = before at *
      have hassoc : before ++ txExtraTagUserData :: UInt8.ofNat extraNonce.length :: extraNonce ++
          List.replicate k 0 = before ++ (txExtraTagUserData ::
            UInt8.ofNat extraNonce.length :: extraNonce ++ List.replicate k 0) :=
        List.append_assoc _ _ _
      have hkey := extraLoop_pubkey (kd.pub txkey) (txExtraTagUserData ::
        UInt8.ofNat extraNonce.length :: extraNonce ++ List.replicate k 0) fuel
      rw [hbefore, ← hassoc] at hkey
      rw [hkey]
      generalize hextra : before ++ txExtraTagUserData :: UInt8.ofNat extraNonce.length ::
        extraNonce ++ List.replicate k 0 = extra at *
      have hlen : extra.length = 35 + extraNonce.length + k := by
        rw [← hextra]
        simp [hkeylen]
        omega
      obtain ⟨w, hstep, hwi, hwpad, hwkey, hwalias⟩ : ∃ w,
          extraStep extra (ExtraWalk.behindKey (kd.pub txkey)) = .ok (true, w) ∧
            w.i = 35 + extraNonce.length ∧ w.paddingStarted = false ∧
            w.info.mTxPubKey = kd.pub txkey ∧ w.info.mAlias = AliasInfo.empty :=
        ⟨_, @extraStep_userData _ _ _ _ (ExtraWalk.behindKey (kd.pub txkey)) hextra.symm
          hkeylen.symm hshort rfl rfl, rfl, rfl, rfl, rfl⟩
      obtain ⟨f, hf⟩ : ∃ f, fuel = f + 1 := ⟨fuel - 1, by omega⟩
      have hmore : ¬(ExtraWalk.behindKey (kd.pub txkey)).i = extra.length := by
        show ¬33 = extra.length
        omega
      rw [hf]
      unfold extraLoop
      rw [if_neg hmore, hstep]
      have hsum : (before ++ txExtraTagUserData :: UInt8.ofNat extraNonce.length ::
          extraNonce).length = 35 + extraNonce.length := by
        simp [hkeylen]
        omega
      obtain ⟨w', hw', hinfo⟩ := extraLoop_zeros (w := w) (fun j hj hlt => by
          rw [← hextra] at hlt ⊢
          exact getElem?_zeros (by omega) hlt)
        (by omega) hwpad (show extra.length + 1 < w.i + f by omega)
      exact ⟨w', hw', by rw [hinfo, hwkey], by rw [hinfo, hwalias]⟩
    · cases h

/-- A miner's extra field is read, with zeros behind it or without. -/
theorem parse_minerExtra (env : Env) {kd : KeyDerivation} {txkey : SecretKey}
    {extraNonce extra : Blob} (h : minerExtra kd txkey extraNonce = some extra) {k : Nat}
    {tx : TransactionPrefix} (htx : tx.extra = extra ++ List.replicate k 0) :
    ∃ info, parseAndValidateTxExtra env tx = .ok (true, info) ∧ info.mTxPubKey = kd.pub txkey := by
  have hlen : tx.extra.length = extra.length + k := by
    rw [htx, List.length_append, List.length_replicate]
  have hpos : 33 ≤ extra.length := by
    unfold minerExtra at h
    split at h
    · cases h
      rw [List.length_cons, bytesOfPod_length]
    · split at h
      · cases h
        rw [List.length_append, List.length_cons, bytesOfPod_length]
        omega
      · cases h
  obtain ⟨w, hw, hkey, halias⟩ := extraLoop_minerExtra h k
    (show extra.length + k + 2 < 2 * tx.extra.length + 1 by omega)
  rw [← htx] at hw
  have hcheck : checkMakeAliasTx env tx w.info = true := by
    unfold checkMakeAliasTx
    rw [if_pos (Or.inr (by rw [halias]; rfl))]
  unfold parseAndValidateTxExtra
  rw [hw]
  simp only [bind, Except.bind, pure, Except.pure, hcheck]
  exact ⟨w.info, rfl, hkey⟩

/-! ## Finding the donation again -/

/-- The derivation is correct, and what goes to the miner does not look like a
donation. -/
structure KeyDerivation.Finds (kd : KeyDerivation) (env : Env) (miner : AccountPublicAddress) :
    Prop where
  donations : ∀ sec i key, kd.outKey env.donationsAccount.mAccountAddress sec i = some key →
    env.isOutToAcc env.donationsAccount key (kd.pub sec) i = true
  royalty : ∀ sec i key, kd.outKey env.royaltyAccount.mAccountAddress sec i = some key →
    env.isOutToAcc env.royaltyAccount key (kd.pub sec) i = true
  miner : ∀ sec i key, kd.outKey miner sec i = some key →
    env.isOutToAcc env.donationsAccount key (kd.pub sec) i = false

section

variable {env : Env} {tx : Transaction} {info : TxExtraInfo}

theorem lookforDonation_two {m : Nat} {a b : UInt64} {k l : PublicKey} {x y : UInt8}
    (hextra : parseAndValidateTxExtra env tx.toTransactionPrefix = .ok (true, info))
    (hlen : tx.vout.length = m + 2) (ha : tx.vout[m]? = some ⟨a, .toKey k x⟩)
    (hb : tx.vout[m + 1]? = some ⟨b, .toKey l y⟩) :
    lookforDonation env tx =
      let d := if env.isOutToAcc env.donationsAccount k info.mTxPubKey m then a else 0
      if d ≠ 0 then
        .ok (some (d, if env.isOutToAcc env.royaltyAccount l info.mTxPubKey (m + 1) then b else 0))
      else
        .ok (some (if env.isOutToAcc env.donationsAccount l info.mTxPubKey (m + 1) then b else 0,
          0)) := by
  unfold lookforDonation
  rw [hextra]
  simp only [bind, Except.bind, pure, Except.pure, hlen]
  rw [if_neg (by simp), if_pos (show 2 ≤ m + 2 by omega)]
  simp only [show m + 2 - 2 = m by omega, show m + 2 - 1 = m + 1 by omega, ha, hb]
  exact if_neg (show ¬m + 2 = 0 by omega)

theorem lookforDonation_one {b : UInt64} {l : PublicKey} {y : UInt8}
    (hextra : parseAndValidateTxExtra env tx.toTransactionPrefix = .ok (true, info))
    (hvout : tx.vout = [⟨b, .toKey l y⟩]) :
    lookforDonation env tx =
      .ok (some (if env.isOutToAcc env.donationsAccount l info.mTxPubKey 0 then b else 0, 0)) := by
  unfold lookforDonation
  rw [hextra]
  simp only [bind, Except.bind, pure, Except.pure, hvout]
  rfl

theorem lookforDonation_none
    (hextra : parseAndValidateTxExtra env tx.toTransactionPrefix = .ok (true, info))
    (hvout : tx.vout = []) : lookforDonation env tx = .ok (some (0, 0)) := by
  unfold lookforDonation
  rw [hextra]
  simp only [bind, Except.bind, pure, Except.pure, hvout]
  rfl

end

/-- An output list of one part. -/
theorem constructOuts_part {kd : KeyDerivation} {dest : AccountPublicAddress} {sec : SecretKey}
    {no : Nat} {amount : UInt64} {outs : List TxOut}
    (h : constructOuts kd dest sec no (partAmounts amount) = some outs) :
    (amount = 0 ∧ outs = []) ∨
      ∃ key, amount ≠ 0 ∧ kd.outKey dest sec no = some key ∧ outs = [⟨amount, .toKey key 0⟩] := by
  unfold partAmounts at h
  split at h
  · next hne =>
    refine .inr ?_
    unfold constructOuts at h
    split at h
    · next o os ho hos =>
      cases h
      cases hos
      obtain ⟨key, hkey, rfl⟩ := Option.map_eq_some_iff.1 ho
      exact ⟨key, hne, hkey, rfl⟩
    · cases h
  · next hzero =>
    cases h
    exact .inl ⟨Classical.not_not.1 hzero, rfl⟩

/-- `lookfor_donation` finds what `construct_miner_tx` gave. -/
theorem lookforDonation_minerOuts {env : Env} {kd : KeyDerivation} {miner : AccountPublicAddress}
    {txkey : SecretKey} {amounts : List UInt64} {donations royalty : UInt64} {tx : Transaction}
    {info : TxExtraInfo} (hfinds : kd.Finds env miner)
    (hextra : parseAndValidateTxExtra env tx.toTransactionPrefix = .ok (true, info))
    (hkey : info.mTxPubKey = kd.pub txkey)
    (hvout : minerOuts env kd txkey miner amounts donations royalty = some tx.vout)
    (hparts : donations = 0 → royalty = 0) :
    lookforDonation env tx = .ok (some (donations, royalty)) := by
  unfold minerOuts at hvout
  split at hvout
  · cases hvout
  · next outs houts =>
    have hcount : outs.length = amounts.length := by
      rw [← constructOuts_amounts houts, List.length_map]
    -- none of the miner's own outputs is found with the donations account
    have hminer : ∀ i < outs.length, ∃ a key, outs[i]? = some ⟨a, .toKey key 0⟩ ∧
        env.isOutToAcc env.donationsAccount key (kd.pub txkey) i = false := by
      intro i hi
      obtain ⟨o, ho⟩ : ∃ o, outs[i]? = some o := ⟨_, List.getElem?_eq_getElem hi⟩
      obtain ⟨key, hderived, htarget⟩ := constructOuts_key houts ho
      rw [Nat.zero_add] at hderived
      refine ⟨o.amount, key, ?_, hfinds.miner txkey i key hderived⟩
      rw [ho, ← htarget]
    split at hvout
    · cases hvout
    · next donationOuts hdonations =>
      obtain ⟨royaltyOuts, hroyalty, hvout⟩ := Option.map_eq_some_iff.1 hvout
      rcases constructOuts_part hdonations with ⟨hd, rfl⟩ | ⟨dkey, hd, hdkey, rfl⟩
      · -- nothing is given away: the last outputs are the miner's
        have hr := hparts hd
        rcases constructOuts_part hroyalty with ⟨-, rfl⟩ | ⟨_, hne, -, -⟩
        · rw [List.append_nil, List.append_nil] at hvout
          rw [hd, hr]
          match hlen : outs.length with
          | 0 => exact lookforDonation_none hextra (hvout ▸ List.length_eq_zero_iff.1 hlen)
          | 1 =>
            obtain ⟨a, key, ha, hnot⟩ := hminer 0 (by omega)
            have hone : outs = [⟨a, .toKey key 0⟩] := by
              obtain ⟨o, rfl⟩ := List.length_eq_one_iff.1 hlen
              cases ha
              rfl
            rw [lookforDonation_one hextra (hvout ▸ hone), hkey, hnot]
            rfl
          | m + 2 =>
            obtain ⟨a, key, ha, hnota⟩ := hminer m (by omega)
            obtain ⟨b, key', hb, hnotb⟩ := hminer (m + 1) (by omega)
            rw [lookforDonation_two hextra (hvout ▸ hlen) (hvout ▸ ha) (hvout ▸ hb), hkey, hnota,
              hnotb]
            rfl
        · exact absurd hr hne
      · have hdmine := hfinds.donations txkey _ dkey hdkey
        rcases constructOuts_part hroyalty with ⟨hr, rfl⟩ | ⟨rkey, hr, hrkey, rfl⟩
        · -- a donation alone, behind the miner's outputs
          rw [List.append_nil] at hvout
          rw [hr]
          rw [← hcount] at hdmine
          match hlen : outs.length with
          | 0 =>
            rw [List.length_eq_zero_iff.1 hlen] at hvout
            rw [hlen] at hdmine
            rw [lookforDonation_one hextra hvout.symm, hkey, hdmine]
            rfl
          | m + 1 =>
            obtain ⟨a, key, ha, hnot⟩ := hminer m (by omega)
            have hlen' : tx.vout.length = m + 2 := by
              rw [← hvout]
              simp [hlen]
            have hat : tx.vout[m]? = some ⟨a, .toKey key 0⟩ := by
              rw [← hvout, List.getElem?_append_left (by omega), ha]
            have hdat : tx.vout[m + 1]? = some ⟨donations, .toKey dkey 0⟩ := by
              rw [← hvout, List.getElem?_append_right (by omega),
                show m + 1 - outs.length = 0 by omega]
              rfl
            rw [hlen] at hdmine
            rw [lookforDonation_two hextra hlen' hat hdat, hkey, hnot, hdmine]
            rfl
        · -- a donation and a royalty
          have hrmine := hfinds.royalty txkey _ rkey hrkey
          have hlen : tx.vout.length = amounts.length + 2 := by
            rw [← hvout]
            simp [hcount]
          have hdat : tx.vout[amounts.length]? = some ⟨donations, .toKey dkey 0⟩ := by
            rw [← hvout, ← hcount]
            simp
          have hrat : tx.vout[amounts.length + 1]? = some ⟨royalty, .toKey rkey 0⟩ := by
            rw [← hvout, ← hcount]
            simp
          rw [lookforDonation_two hextra hlen hdat hrat, hkey, hdmine]
          -- the royalty stands one behind the donation, which is a single output
          have hlater : env.isOutToAcc env.royaltyAccount rkey (kd.pub txkey) (amounts.length + 1) =
              true := by
            have hone : (partAmounts donations).length = 1 := by
              unfold partAmounts
              rw [if_pos hd]
              rfl
            rw [hone] at hrmine
            exact hrmine
          simp [hd, hlater]

end DarknetSpace
