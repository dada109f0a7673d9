import DarknetSpace.Core.Template
import DarknetSpace.Format.MinerAlias

/-!
# The loop that fits a coinbase (`create_block_template`)

How large a coinbase is does not depend on the keys that are drawn for it: only
on the digits of the reward, and so on the size of the block. The loop follows
that one function. A coinbase that came out too long is the next size to try;
one that came out short is padded, which fails where the padding makes the
extra field 128 bytes long. One zero fewer is then one byte too short, and the
loop goes on with a size that is `delta - 1` larger, which for a `delta` of one
is the same size again.

So the sizes the loop tries are a recurrence that can be computed (`nextSize`), and
`Settles` says that one of them gives a coinbase of its own size or can be padded to it.
Main result: `template_loop_converges_iff`. The sizes stay in a window of 573 bytes, and
what is built is parsed again with its padding.
-/

namespace DarknetSpace

/-- A template with an alias to be registered. -/
structure AliasTemplate extends TemplateParams where
  ai : AliasInfo

namespace AliasTemplate

/-- `construct_miner_tx` with the alias behind the nonce. -/
def minerTx (t : AliasTemplate) (env : Env) (kd : KeyDerivation) (size : Nat)
    (txkey : SecretKey) : Option Transaction :=
  (t.toTemplateParams.minerTx env kd size txkey).bind fun tx => addTxExtraAlias tx t.ai

/-- The loop's body behind `construct_miner_tx`. -/
def fitted (t : AliasTemplate) (env : Env) (cumulativeSize : Nat) : Option Transaction → Try
  | none => .failed
  | some tx =>
    if t.sizeWith env tx > cumulativeSize then .again (t.sizeWith env tx)
    else if t.sizeWith env tx < cumulativeSize then
      let delta := cumulativeSize - t.sizeWith env tx
      if cumulativeSize ≠ t.sizeWith env (padExtra tx delta) then
        if cumulativeSize + 1 ≠ t.sizeWith env (padExtra tx delta) then .failed
        else if cumulativeSize ≠ t.sizeWith env (padExtra tx (delta - 1)) then
          .again (cumulativeSize + (delta - 1))
        else .done (padExtra tx (delta - 1))
      else .done (padExtra tx delta)
    else .done tx

/-- The body of the loop over `try_count`. -/
def tryOnce (t : AliasTemplate) (env : Env) (kd : KeyDerivation) (cumulativeSize : Nat)
    (txkey : SecretKey) : Try :=
  t.fitted env cumulativeSize (t.minerTx env kd cumulativeSize txkey)

/-- The loop, with the keys that `keypair::generate` comes up with. -/
def tries (t : AliasTemplate) (env : Env) (kd : KeyDerivation) :
    (left : Nat) → (cumulativeSize : Nat) → (keys : Nat → SecretKey) → Option Transaction
  | 0, _, _ => none
  | left + 1, cumulativeSize, keys =>
    match t.tryOnce env kd cumulativeSize (keys 0) with
    | .done tx => some tx
    | .failed => none
    | .again size => t.tries env kd left size (fun k => keys (k + 1))

/-- Both phases of the coinbase. -/
def coinbase (t : AliasTemplate) (env : Env) (kd : KeyDerivation) (keys : Nat → SecretKey) :
    Option Transaction :=
  match t.minerTx env kd t.txsSize (keys 0) with
  | none => none
  | some tx => t.tries env kd 10 (t.sizeWith env tx) (fun k => keys (k + 1))

/-- The sizes and keys the loop calls `construct_miner_tx` with. -/
def tried (t : AliasTemplate) (env : Env) (kd : KeyDerivation) :
    (left : Nat) → (cumulativeSize : Nat) → (keys : Nat → SecretKey) → List (Nat × SecretKey)
  | 0, _, _ => []
  | left + 1, cumulativeSize, keys =>
    (cumulativeSize, keys 0) ::
      match t.tryOnce env kd cumulativeSize (keys 0) with
      | .again size => t.tried env kd left size (fun k => keys (k + 1))
      | _ => []

/-- And those of both phases. -/
def attempts (t : AliasTemplate) (env : Env) (kd : KeyDerivation) (keys : Nat → SecretKey) :
    List (Nat × SecretKey) :=
  (t.txsSize, keys 0) ::
    match t.minerTx env kd t.txsSize (keys 0) with
    | none => []
    | some tx => t.tried env kd 10 (t.sizeWith env tx) (fun k => keys (k + 1))

/-- Without an alias this is the loop of a plain template. -/
theorem coinbase_of_no_alias {t : AliasTemplate} (hnone : t.ai.mAlias = []) (env : Env)
    (kd : KeyDerivation) (keys : Nat → SecretKey) :
    t.coinbase env kd keys = t.toTemplateParams.coinbase env kd keys := by
  have hbuilt : ∀ size txkey, t.minerTx env kd size txkey =
      t.toTemplateParams.minerTx env kd size txkey := by
    intro size txkey
    unfold minerTx addTxExtraAlias
    simp only [if_pos hnone]
    exact Option.bind_fun_some _
  have htries : ∀ left size keys, t.tries env kd left size keys =
      t.toTemplateParams.tries env kd left size keys := by
    intro left
    induction left with
    | zero => exact fun _ _ => rfl
    | succ left ih =>
      intro size keys
      have honce : t.tryOnce env kd size (keys 0) =
          t.toTemplateParams.tryOnce env kd size (keys 0) := by
        unfold tryOnce
        rw [hbuilt]
        unfold TemplateParams.tryOnce fitted
        cases t.toTemplateParams.minerTx env kd size (keys 0) with
        | none => rfl
        | some tx => rfl
      unfold tries TemplateParams.tries
      rw [honce]
      cases t.toTemplateParams.tryOnce env kd size (keys 0) with
      | done tx => rfl
      | failed => rfl
      | again size' => exact ih _ _
  unfold coinbase TemplateParams.coinbase
  rw [hbuilt]
  cases t.toTemplateParams.minerTx env kd t.txsSize (keys 0) with
  | none => rfl
  | some tx => exact htries _ _ _

end AliasTemplate

/-! ## How large a coinbase is -/

/-- Joining the last two amounts leaves one less. -/
theorem length_joinLast {amounts : List Nat} (h : 2 ≤ amounts.length) :
    (joinLast amounts).length = amounts.length - 1 := by
  have hrev : amounts.reverse.length = amounts.length := List.length_reverse
  unfold joinLast
  split
  · next b a rest heq =>
    rw [heq, List.length_cons, List.length_cons] at hrev
    rw [List.length_reverse, List.length_cons]
    omega
  · next hne =>
    match heq : amounts.reverse with
    | [] => rw [heq, List.length_nil] at hrev; omega
    | [_] => rw [heq, List.length_singleton] at hrev; omega
    | b :: a :: rest => exact absurd heq (hne b a rest)

/-- `max_outs` outputs at most are left. -/
theorem length_joinOuts {maxOuts fuel : Nat} {amounts : List Nat} (hmax : 1 ≤ maxOuts)
    (hfuel : amounts.length ≤ maxOuts + fuel) : (joinOuts maxOuts fuel amounts).length ≤ maxOuts := by
  induction fuel generalizing amounts with
  | zero => exact hfuel
  | succ fuel ih =>
    unfold joinOuts
    by_cases hmore : maxOuts < amounts.length
    · rw [if_pos hmore]
      refine ih ?_
      rw [length_joinLast (by omega)]
      omega
    · rw [if_neg hmore]
      omega

theorem length_minerAmounts (blockReward : UInt64) {maxOuts : Nat} (hmax : 1 ≤ maxOuts) :
    (minerAmounts blockReward maxOuts).length ≤ maxOuts := by
  unfold minerAmounts
  exact length_joinOuts hmax (by omega)

/-- An output takes 34 bytes and its amount. -/
theorem constructOuts_size {kd : KeyDerivation} {dest : AccountPublicAddress} {sec : SecretKey}
    {no : Nat} {amounts : List UInt64} {outs : List TxOut}
    (h : constructOuts kd dest sec no amounts = some outs) :
    outs.map txOutSize = amounts.map fun a => varintSize a.toNat + 34 := by
  induction amounts generalizing no outs with
  | nil =>
    cases h
    rfl
  | cons a rest ih =>
    unfold constructOuts at h
    split at h
    · next o os ho hos =>
      cases h
      obtain ⟨key, -, rfl⟩ := Option.map_eq_some_iff.1 ho
      rw [List.map_cons, List.map_cons, ih hos]
      rfl
    · cases h

/-- What the outputs of these amounts take up, each of them paying to a key. -/
def outsSize (amounts : List UInt64) : Nat :=
  varintSize amounts.length + (amounts.map fun a => varintSize a.toNat + 34).sum

/-- The outputs of a coinbase are those of its amounts. -/
theorem minerOuts_size {env : Env} {kd : KeyDerivation} {txkey : SecretKey}
    {miner : AccountPublicAddress} {amounts : List UInt64} {donations royalty : UInt64}
    {vout : List TxOut} (h : minerOuts env kd txkey miner amounts donations royalty = some vout) :
    varintSize vout.length + (vout.map txOutSize).sum =
      outsSize (amounts ++ partAmounts donations ++ partAmounts royalty) := by
  have hlen : vout.length = (amounts ++ partAmounts donations ++ partAmounts royalty).length := by
    rw [← minerOuts_amounts h, List.length_map]
  have hsizes : vout.map txOutSize = (amounts ++ partAmounts donations ++
      partAmounts royalty).map fun a => varintSize a.toNat + 34 := by
    unfold minerOuts at h
    split at h
    · cases h
    · next outs houts =>
      split at h
      · cases h
      · next donationOuts hdonations =>
        obtain ⟨royaltyOuts, hroyalty, rfl⟩ := Option.map_eq_some_iff.1 h
        simp only [List.map_append]
        rw [constructOuts_size houts, constructOuts_size hdonations, constructOuts_size hroyalty]
  unfold outsSize
  rw [hlen, hsizes]

theorem length_partAmounts (amount : UInt64) : (partAmounts amount).length ≤ 1 := by
  unfold partAmounts
  split
  · exact Nat.le_refl 1
  · exact Nat.zero_le 1

/-- Thirteen outputs take 573 bytes at most. -/
theorem outsSize_bounds {amounts : List UInt64} (hlen : amounts.length ≤ 13) :
    1 ≤ outsSize amounts ∧ outsSize amounts ≤ 573 := by
  have hone : varintSize amounts.length = 1 := by
    unfold varintSize
    exact if_pos (by omega)
  have hsum : (amounts.map fun a => varintSize a.toNat + 34).sum ≤ 44 * amounts.length := by
    clear hlen hone
    induction amounts with
    | nil => exact Nat.le_refl 0
    | cons a rest ih =>
      have ha := varintSize_word a
      rw [List.map_cons, List.sum_cons, List.length_cons]
      omega
  unfold outsSize
  omega

/-- A coinbase has no signatures, and the version of the day. -/
theorem constructMinerTx_signatures {env : Env} {kd : KeyDerivation}
    {height medianSize size maxOuts : Nat} {generated fee : UInt64} {miner : AccountPublicAddress}
    {txkey : SecretKey} {extraNonce : Blob} {tx : Transaction}
    (h : constructMinerTx env kd height medianSize generated size fee miner txkey extraNonce maxOuts
      = some tx) : tx.signatures = [] := by
  unfold constructMinerTx at h
  split at h
  · cases h
  · split at h
    · cases h
    · simp only at h
      split at h
      · cases h
      · split at h
        · cases h
        · split at h
          · cases h
          · cases h
            rfl

namespace AliasTemplate

/-- The amounts of the coinbase for a reward. -/
def outAmounts (t : AliasTemplate) (reward : UInt64) : List UInt64 :=
  let total := totalDonationAmount t.height reward
  (minerAmounts (reward - total + t.fee) 11).map UInt64.ofNat ++
    partAmounts (getDonationParts total).2 ++ partAmounts (getDonationParts total).1

/-- How long the extra field is before it is padded. -/
def extraLength (t : AliasTemplate) : Nat :=
  33 + (nonceField t.exNonce).length +
    if t.ai.mAlias = [] then 0 else ((makeTxExtraAliasEntry t.ai false).getD []).length

/-- The part of a coinbase that no reward changes, without the length of the
extra field. -/
def fixedSize (t : AliasTemplate) : Nat :=
  varintSize currentTransactionVersion +
    varintSize (UInt64.ofNat (t.height + currencyMinedMoneyUnlockWindow)).toNat +
    (varintSize 1 + (1 + varintSize (UInt64.ofNat t.height).toNat)) + t.extraLength

/-- The size of a block whose coinbase was built for `size`. -/
def blockSize (t : AliasTemplate) (size : Nat) : Nat :=
  t.txsSize + (t.fixedSize + varintSize t.extraLength +
    outsSize (t.outAmounts
      ((getBlockReward t.medianSize size t.alreadyGeneratedCoins t.height).getD 0)))

end AliasTemplate

namespace AliasTemplate

section

variable {env : Env} {kd : KeyDerivation} {t : AliasTemplate} {size : Nat} {txkey : SecretKey}
  {tx : Transaction}

/-- What `construct_miner_tx` leaves in the extra field, and what the block
weighs with some zeros behind it. -/
structure Built (t : AliasTemplate) (env : Env) (kd : KeyDerivation) (size : Nat)
    (txkey : SecretKey) (tx : Transaction) : Prop where
  extra : ∃ extra entry, minerExtra kd txkey t.exNonce = some extra ∧ AliasEntry t.ai entry ∧
    tx.extra = extra ++ entry
  gen : isCoinbase tx.toTransactionPrefix = true
  padded : ∀ k, t.sizeWith env (padExtra tx k) + varintSize t.extraLength =
    t.blockSize size + k + varintSize (t.extraLength + k)

/-- The extra field has the length that the template tells. -/
theorem length_extra {extra entry : Blob} (hminer : minerExtra kd txkey t.exNonce = some extra)
    (halias : AliasEntry t.ai entry) : (extra ++ entry).length = t.extraLength := by
  obtain ⟨-, hextra⟩ := minerExtra_eq_some.1 hminer
  have hentry : entry.length =
      if t.ai.mAlias = [] then 0 else ((makeTxExtraAliasEntry t.ai false).getD []).length := by
    unfold AliasEntry at halias
    by_cases hname : t.ai.mAlias = []
    · rw [if_pos hname] at halias ⊢
      rw [halias]
      rfl
    · rw [if_neg hname] at halias ⊢
      rw [halias]
      rfl
  unfold extraLength
  rw [List.length_append, hextra, List.length_append, List.length_cons, bytesOfPod_length, hentry]

/-- Eleven outputs for the miner, one for the donations and one for the royalty. -/
theorem length_outAmounts (t : AliasTemplate) (reward : UInt64) :
    (t.outAmounts reward).length ≤ 13 := by
  have hminer := length_minerAmounts
    (reward - totalDonationAmount t.height reward + t.fee) (show 1 ≤ 11 by omega)
  have hdonations :=
    length_partAmounts (getDonationParts (totalDonationAmount t.height reward)).2
  have hroyalty := length_partAmounts (getDonationParts (totalDonationAmount t.height reward)).1
  unfold outAmounts
  rw [List.length_append, List.length_append, List.length_map]
  omega

/-- A coinbase with an alias is one without, and the entry behind its extra field. -/
theorem minerTx_parts (h : t.minerTx env kd size txkey = some tx) :
    ∃ tx₀ reward entry, MinerTx env kd t.height t.medianSize t.alreadyGeneratedCoins size t.fee
        t.minerAddress txkey t.exNonce 11 reward tx₀ ∧
      tx₀.version = UInt64.ofNat currentTransactionVersion ∧ tx₀.signatures = [] ∧
      AliasEntry t.ai entry ∧ tx = { tx₀ with extra := tx₀.extra ++ entry } := by
  unfold minerTx at h
  obtain ⟨tx₀, htx₀, hadd⟩ := Option.bind_eq_some_iff.1 h
  obtain ⟨reward, hm⟩ := constructMinerTx_some htx₀
  refine ⟨tx₀, reward, ?_⟩
  unfold addTxExtraAlias at hadd
  unfold AliasEntry
  by_cases hname : t.ai.mAlias = []
  · rw [if_pos hname] at hadd
    cases hadd
    exact ⟨[], hm, constructMinerTx_version htx₀, constructMinerTx_signatures htx₀,
      by rw [if_pos hname], by rw [List.append_nil]⟩
  · rw [if_neg hname] at hadd
    obtain ⟨entry, hentry, rfl⟩ := Option.map_eq_some_iff.1 hadd
    exact ⟨entry, hm, constructMinerTx_version htx₀, constructMinerTx_signatures htx₀,
      by rwa [if_neg hname], rfl⟩

/-- Such a coinbase is built as `Built` says. -/
theorem minerTx_some (hsize : env.prefixBlobsize = serializedPrefixSize)
    (h : t.minerTx env kd size txkey = some tx) : t.Built env kd size txkey tx := by
  obtain ⟨tx₀, reward, entry, hm, hversion, -, halias, hextra⟩ := minerTx_parts h
  have hgen : ∀ k, isCoinbase (padExtra tx k).toTransactionPrefix = true := by
    intro k
    have hvin : (padExtra tx k).vin = [.gen (UInt64.ofNat t.height)] := by
      rw [hextra]
      exact hm.vin
    unfold isCoinbase
    rw [hvin]
  refine ⟨⟨tx₀.extra, entry, hm.extra, halias, by rw [hextra]⟩, ?_, ?_⟩
  · have := hgen 0
    rwa [padExtra_zero] at this
  · intro k
    have hlen : (padExtra tx k).extra.length = t.extraLength + k := by
      rw [← length_extra hm.extra halias, hextra]
      show (tx₀.extra ++ entry ++ List.replicate k 0).length = _
      rw [List.length_append, List.length_replicate]
    have houts := minerOuts_size hm.vout
    have hprefix : serializedPrefixSize (padExtra tx k).toTransactionPrefix =
        varintSize currentTransactionVersion +
          (varintSize (UInt64.ofNat (t.height + currencyMinedMoneyUnlockWindow)).toNat +
            (varintSize 1 + (1 + varintSize (UInt64.ofNat t.height).toNat + 0)) +
            (varintSize tx₀.vout.length + (tx₀.vout.map txOutSize).sum) +
            (varintSize (t.extraLength + k) + (t.extraLength + k))) := by
      unfold serializedPrefixSize bytesSize
      rw [hlen, hextra]
      show varintSize tx₀.version.toNat + (if currentTransactionVersion < tx₀.version.toNat then 0
        else varintSize tx₀.unlockTime.toNat +
          (varintSize tx₀.vin.length + (tx₀.vin.map txinSize).sum) + _ + _) = _
      rw [hversion, hm.unlockTime, hm.vin]
      rfl
    unfold TemplateParams.sizeWith getObjectBlobsize
    rw [if_pos (hgen k), hsize, hprefix, houts]
    unfold blockSize fixedSize outAmounts
    rw [hm.rewarded]
    simp only [Option.getD_some]
    omega

end

end AliasTemplate

/-! ## One try -/

/-- An alias entry takes 674 bytes at most. -/
theorem length_makeTxExtraAliasEntry {alinfo : AliasInfo} {makeBuffToSign : Bool} {entry : Blob}
    (hmade : makeTxExtraAliasEntry alinfo makeBuffToSign = some entry) : entry.length ≤ 674 := by
  have hpod : ∀ (c : Bool) (n v : Nat),
      (if c = true then bytesOfPod n v else []).length ≤ n := by
    intro c n v
    cases c with
    | true => exact Nat.le_of_eq (bytesOfPod_length n v)
    | false => exact Nat.zero_le n
  unfold makeTxExtraAliasEntry at hmade
  split at hmade
  · cases hmade
  · next hsizes =>
    rw [not_or, not_or] at hsizes
    cases hmade
    simp only [List.length_append, List.length_cons, List.length_nil, bytesOfPod_length]
    have htrack := hpod (decide (alinfo.mViewKey ≠ 0)) 32 alinfo.mViewKey.toNat
    have hsign := hpod (!makeBuffToSign && decide (alinfo.mSign ≠ nullSig)) 64 alinfo.mSign.toNat
    omega

/-- A nonce takes two bytes more than it has. -/
theorem length_nonceField {nonce : Blob} (h : nonce.length ≤ 255) :
    (nonceField nonce).length ≤ 257 := by
  unfold nonceField
  split
  · exact Nat.zero_le _
  · rw [List.length_cons, List.length_cons]
    omega

/-- Short numbers take one byte or two. -/
theorem varintSize_short {v : Nat} (h : v < 16384) :
    varintSize v = if v < 128 then 1 else 2 := by
  unfold varintSize
  by_cases hv : v < 128
  · rw [if_pos hv, if_pos hv]
  · rw [if_neg hv, if_neg hv]
    unfold varintSize
    rw [if_pos (by omega)]

namespace AliasTemplate

/-- The coinbase for `size` is not too long, and its padding does not end at 128
bytes of extra field. -/
def Settles (t : AliasTemplate) (size : Nat) : Prop :=
  t.blockSize size ≤ size ∧
    ¬ (t.extraLength < 128 ∧ t.extraLength + (size - t.blockSize size) = 128)

instance (t : AliasTemplate) (size : Nat) : Decidable (t.Settles size) :=
  inferInstanceAs (Decidable (_ ∧ _))

/-- The size that is tried after one that does not settle. -/
def nextSize (t : AliasTemplate) (size : Nat) : Nat :=
  if size < t.blockSize size then t.blockSize size
  else size + (size - t.blockSize size - 1)

/-- The least a block can weigh. -/
def leastSize (t : AliasTemplate) : Nat :=
  t.txsSize + (t.fixedSize + varintSize t.extraLength)

/-- No size the loop gets to is further away than this. -/
def InReach (t : AliasTemplate) (size : Nat) : Prop := size ≤ t.leastSize + 828

theorem blockSize_bounds (t : AliasTemplate) (size : Nat) :
    t.leastSize < t.blockSize size ∧ t.blockSize size ≤ t.leastSize + 573 := by
  have houts := outsSize_bounds (t.length_outAmounts
    ((getBlockReward t.medianSize size t.alreadyGeneratedCoins t.height).getD 0))
  unfold blockSize leastSize
  omega

theorem inReach_blockSize (t : AliasTemplate) (size : Nat) : t.InReach (t.blockSize size) := by
  have := t.blockSize_bounds size
  unfold InReach
  omega

/-- and so is the one that is tried next. -/
theorem inReach_nextSize {t : AliasTemplate} {size : Nat} (hnot : ¬ t.Settles size) :
    t.InReach (t.nextSize size) := by
  have hbounds := t.blockSize_bounds size
  unfold Settles at hnot
  unfold nextSize InReach
  by_cases hshort : size < t.blockSize size
  · rw [if_pos hshort]
    omega
  · rw [if_neg hshort]
    omega

section

variable {env : Env} {kd : KeyDerivation} {t : AliasTemplate} {size : Nat} {txkey : SecretKey}
  {tx : Transaction}

/-- The extra field has 964 bytes at most. -/
theorem Built.extraLength_le (h : t.Built env kd size txkey tx) : t.extraLength ≤ 964 := by
  obtain ⟨extra, entry, hminer, halias, -⟩ := h.extra
  obtain ⟨hshort, -⟩ := minerExtra_eq_some.1 hminer
  have hnonce := length_nonceField hshort
  unfold AliasEntry at halias
  unfold extraLength
  by_cases hname : t.ai.mAlias = []
  · rw [if_pos hname]
    omega
  · rw [if_neg hname] at halias ⊢
    rw [halias, Option.getD_some]
    have := length_makeTxExtraAliasEntry halias
    omega

/-- The size with `k` zeros: `k` more, and one more behind 127 bytes. -/
theorem Built.sizeWith_padded (h : t.Built env kd size txkey tx) {k : Nat} (hk : k ≤ 828) :
    t.sizeWith env (padExtra tx k) =
      t.blockSize size + k + if t.extraLength < 128 ∧ 128 ≤ t.extraLength + k then 1 else 0 := by
  have hle := h.extraLength_le
  have hpadded := h.padded k
  rw [varintSize_short (show t.extraLength < 16384 by omega),
    varintSize_short (show t.extraLength + k < 16384 by omega)] at hpadded
  split at hpadded <;> split at hpadded <;> split <;> omega

theorem Built.sizeWith_eq (h : t.Built env kd size txkey tx) :
    t.sizeWith env tx = t.blockSize size := by
  have hpadded := h.sizeWith_padded (Nat.zero_le 828)
  rw [padExtra_zero, if_neg (by omega)] at hpadded
  exact hpadded

/-- A size that settles ends the loop with a coinbase that fits. -/
theorem fitted_of_settles (h : t.Built env kd size txkey tx) (hreach : t.InReach size)
    (hsettles : t.Settles size) :
    ∃ k, t.fitted env size (some tx) = .done (padExtra tx k) ∧
      t.sizeWith env (padExtra tx k) = size := by
  obtain ⟨hle, hlucky⟩ := hsettles
  have hbounds := t.blockSize_bounds size
  unfold InReach at hreach
  unfold fitted
  simp only [h.sizeWith_eq]
  rw [if_neg (by omega)]
  by_cases hsame : t.blockSize size = size
  · rw [if_neg (by omega)]
    exact ⟨0, by rw [padExtra_zero], by rw [padExtra_zero, h.sizeWith_eq, hsame]⟩
  · rw [if_pos (by omega)]
    have hδ := h.sizeWith_padded (show size - t.blockSize size ≤ 828 by omega)
    by_cases hcross : t.extraLength < 128 ∧ 128 ≤ t.extraLength + (size - t.blockSize size)
    · -- one zero fewer, and the counter still takes two bytes
      rw [if_pos hcross] at hδ
      have hδ' := h.sizeWith_padded (show size - t.blockSize size - 1 ≤ 828 by omega)
      rw [if_pos (by omega)] at hδ'
      rw [if_pos (by omega), if_neg (by omega), if_neg (by omega)]
      exact ⟨_, rfl, by omega⟩
    · rw [if_neg hcross] at hδ
      rw [if_neg (by omega)]
      exact ⟨_, rfl, by omega⟩

/-- A size that does not settle is tried again with the next one. -/
theorem fitted_of_not_settles (h : t.Built env kd size txkey tx) (hreach : t.InReach size)
    (hnot : ¬ t.Settles size) : t.fitted env size (some tx) = .again (t.nextSize size) := by
  have hbounds := t.blockSize_bounds size
  unfold InReach at hreach
  unfold Settles at hnot
  unfold fitted nextSize
  simp only [h.sizeWith_eq]
  by_cases hshort : size < t.blockSize size
  · rw [if_pos (by omega), if_pos hshort]
  · -- the padding would end at 128 bytes, and without its last zero at 127
    rw [if_neg (by omega), if_pos (by omega), if_neg hshort]
    have hδ := h.sizeWith_padded (show size - t.blockSize size ≤ 828 by omega)
    rw [if_pos (by omega)] at hδ
    have hδ' := h.sizeWith_padded (show size - t.blockSize size - 1 ≤ 828 by omega)
    rw [if_neg (by omega)] at hδ'
    rw [if_pos (by omega), if_neg (by omega), if_pos (by omega)]

end

end AliasTemplate

/-! ## The whole loop -/

namespace AliasTemplate

/-- The sizes tried one after the other, as long as none of them settles. -/
def sizeTried (t : AliasTemplate) (tryCount : Nat) : Nat :=
  t.nextSize^[tryCount] (t.blockSize t.txsSize)

/-- The last coinbase was built for the size it gives the block, and its extra
field reads as it was built. -/
def LastFits (t : AliasTemplate) (env : Env) (kd : KeyDerivation)
    (attempts : List (Nat × SecretKey)) (tx : Transaction) : Prop :=
  ∃ txkey, attempts.getLast? = some (t.sizeWith env tx, txkey) ∧
    parseAndValidateTxExtra env tx.toTransactionPrefix =
      .ok (true, ⟨kd.pub txkey, aliasRead t.ai, t.exNonce⟩)

section

variable {env : Env} {kd : KeyDerivation} {t : AliasTemplate} {size : Nat} {txkey : SecretKey}
  {tx : Transaction}

/-- The extra field is read the same with padding behind it. -/
theorem Built.parse_padded (h : t.Built env kd size txkey tx) (k : Nat) :
    parseAndValidateTxExtra env (padExtra tx k).toTransactionPrefix =
      .ok (true, ⟨kd.pub txkey, aliasRead t.ai, t.exNonce⟩) := by
  obtain ⟨extra, entry, hminer, halias, hextra⟩ := h.extra
  refine parse_coinbaseExtra env (k := k) hminer halias ?_ h.gen
  show tx.extra ++ List.replicate k 0 = _
  rw [hextra]

/-- The tries that are left succeed exactly when one of the sizes still to be
tried settles. -/
theorem tries_iff (hsize : env.prefixBlobsize = serializedPrefixSize) {left : Nat}
    {keys : Nat → SecretKey} (hreach : t.InReach size)
    (hbuilds : ∀ a ∈ t.tried env kd left size keys, (t.minerTx env kd a.1 a.2).isSome = true) :
    ((∃ tx, t.tries env kd left size keys = some tx) ↔
      ∃ k < left, t.Settles (t.nextSize^[k] size)) ∧
    ∀ tx, t.tries env kd left size keys = some tx →
      t.LastFits env kd (t.tried env kd left size keys) tx := by
  induction left generalizing size keys with
  | zero => exact ⟨⟨fun ⟨_, h⟩ => (nomatch h), fun ⟨_, h, _⟩ => (nomatch h)⟩, nofun⟩
  | succ left ih =>
    obtain ⟨tx, htx⟩ := Option.isSome_iff_exists.1
      (hbuilds (size, keys 0) (by unfold tried; exact List.mem_cons_self))
    have hbuilt := minerTx_some hsize htx
    have honce : t.tryOnce env kd size (keys 0) = t.fitted env size (some tx) := by
      unfold tryOnce
      rw [htx]
    -- either this round fits, or it says with which size the next one starts
    by_cases hsettles : t.Settles size
    · obtain ⟨k, hdone, hfits⟩ := fitted_of_settles hbuilt hreach hsettles
      rw [← honce] at hdone
      have htries : t.tries env kd (left + 1) size keys = some (padExtra tx k) := by
        unfold tries
        rw [hdone]
      have htried : t.tried env kd (left + 1) size keys = [(size, keys 0)] := by
        unfold tried
        rw [hdone]
      rw [htries, htried]
      refine ⟨⟨fun _ => ⟨0, by omega, hsettles⟩, fun _ => ⟨_, rfl⟩⟩, ?_⟩
      intro tx' htx'
      cases htx'
      exact ⟨keys 0, by rw [hfits]; rfl, hbuilt.parse_padded k⟩
    · have hagain := fitted_of_not_settles hbuilt hreach hsettles
      rw [← honce] at hagain
      have htries : t.tries env kd (left + 1) size keys =
          t.tries env kd left (t.nextSize size) (fun k => keys (k + 1)) := by
        conv => lhs; unfold tries
        rw [hagain]
      have htried : t.tried env kd (left + 1) size keys =
          (size, keys 0) :: t.tried env kd left (t.nextSize size) (fun k => keys (k + 1)) := by
        conv => lhs; unfold tried
        rw [hagain]
      rw [htried] at hbuilds ⊢
      obtain ⟨hiff, hlast⟩ := ih (inReach_nextSize hsettles)
        (fun a ha => hbuilds a (List.mem_cons_of_mem _ ha))
      rw [htries]
      refine ⟨hiff.trans ?_, ?_⟩
      · constructor
        · intro ⟨k, hk, hthen⟩
          exact ⟨k + 1, by omega, hthen⟩
        · intro ⟨k, hk, hthen⟩
          cases k with
          | zero => exact absurd hthen hsettles
          | succ k => exact ⟨k, by omega, hthen⟩
      · intro tx' htx'
        obtain ⟨key, hkey, hparse⟩ := hlast tx' htx'
        exact ⟨key, by rw [List.getLast?_cons, hkey]; rfl, hparse⟩

end

end AliasTemplate

/-- A coinbase that comes out of the loop was built for one of the sizes tried,
and then padded. -/
theorem AliasTemplate.tries_some {env : Env} {kd : KeyDerivation} {t : AliasTemplate}
    {left size : Nat} {keys : Nat → SecretKey} {tx : Transaction}
    (hsize : env.prefixBlobsize = serializedPrefixSize) (hreach : t.InReach size)
    (h : t.tries env kd left size keys = some tx) :
    ∃ built txkey tx₀ k, t.minerTx env kd built txkey = some tx₀ ∧ tx = padExtra tx₀ k ∧
      k ≤ 830 := by
  induction left generalizing size keys with
  | zero => cases h
  | succ left ih =>
    unfold tries tryOnce at h
    cases htx : t.minerTx env kd size (keys 0) with
    | none =>
      rw [htx] at h
      cases h
    | some tx₀ =>
      have hbuilt := minerTx_some hsize htx
      rw [htx] at h
      by_cases hsettles : t.Settles size
      · obtain ⟨k, hdone, hfits⟩ := fitted_of_settles hbuilt hreach hsettles
        rw [hdone] at h
        cases h
        refine ⟨size, keys 0, tx₀, k, htx, rfl, ?_⟩
        -- the size bounds the padding
        have hpadded := hbuilt.padded k
        have hshort := varintSize_short (show t.extraLength < 16384 by
          have := hbuilt.extraLength_le
          omega)
        have hone := one_le_varintSize (t.extraLength + k)
        have hbounds := t.blockSize_bounds size
        unfold InReach at hreach
        rw [hfits, hshort] at hpadded
        split at hpadded <;> omega
      · rw [fitted_of_not_settles hbuilt hreach hsettles] at h
        exact ih (inReach_nextSize hsettles) h

/-- The coinbase that is returned was built for some size and padded by 830 bytes at most. -/
theorem AliasTemplate.coinbase_some {env : Env} {kd : KeyDerivation} {t : AliasTemplate}
    {keys : Nat → SecretKey} {tx : Transaction}
    (hsize : env.prefixBlobsize = serializedPrefixSize) (h : t.coinbase env kd keys = some tx) :
    ∃ built txkey tx₀ k, t.minerTx env kd built txkey = some tx₀ ∧ tx = padExtra tx₀ k ∧
      k ≤ 830 := by
  unfold coinbase at h
  cases htx : t.minerTx env kd t.txsSize (keys 0) with
  | none =>
    rw [htx] at h
    cases h
  | some tx₀ =>
    rw [htx] at h
    have hfirst := (minerTx_some hsize htx).sizeWith_eq
    refine tries_some hsize ?_ h
    rw [hfirst]
    exact t.inReach_blockSize t.txsSize

/-- Behind 127 bytes of extra field, a coinbase that is one byte short is tried
again for the same size; no number of tries would be enough. -/
theorem AliasTemplate.never_settles {t : AliasTemplate} {size : Nat} (hextra : t.extraLength = 127)
    (hshort : t.blockSize size + 1 = size) (tryCount : Nat) :
    ¬ t.Settles (t.nextSize^[tryCount] size) := by
  have hsame : t.nextSize size = size := by
    unfold AliasTemplate.nextSize
    rw [if_neg (by omega)]
    omega
  rw [Function.iterate_fixed hsame]
  intro ⟨_, hlucky⟩
  exact hlucky ⟨by omega, by omega⟩

/-- If every coinbase the loop asks for can be built, the loop ends with one that
fits exactly when one of the first ten sizes settles. -/
theorem template_loop_converges_iff {env : Env} {kd : KeyDerivation} {t : AliasTemplate}
    {keys : Nat → SecretKey} (hsize : env.prefixBlobsize = serializedPrefixSize)
    (hbuilds : ∀ a ∈ t.attempts env kd keys, (t.minerTx env kd a.1 a.2).isSome = true) :
    ((∃ tx, t.coinbase env kd keys = some tx) ∧
      ∀ tx, t.coinbase env kd keys = some tx →
        t.LastFits env kd (t.attempts env kd keys) tx) ↔
      ∃ tryCount < 10, t.Settles (t.sizeTried tryCount) := by
  obtain ⟨tx₀, htx₀⟩ := Option.isSome_iff_exists.1
    (hbuilds (t.txsSize, keys 0) (by unfold AliasTemplate.attempts; exact List.mem_cons_self))
  have hfirst := (AliasTemplate.minerTx_some hsize htx₀).sizeWith_eq
  have hcoinbase : t.coinbase env kd keys =
      t.tries env kd 10 (t.blockSize t.txsSize) (fun k => keys (k + 1)) := by
    unfold AliasTemplate.coinbase
    rw [htx₀]
    simp only [hfirst]
  have hattempts : t.attempts env kd keys = (t.txsSize, keys 0) ::
      t.tried env kd 10 (t.blockSize t.txsSize) (fun k => keys (k + 1)) := by
    unfold AliasTemplate.attempts
    rw [htx₀]
    simp only [hfirst]
  rw [hattempts] at hbuilds ⊢
  obtain ⟨hiff, hlast⟩ := AliasTemplate.tries_iff hsize (t.inReach_blockSize t.txsSize)
    (fun a ha => hbuilds a (List.mem_cons_of_mem _ ha))
  rw [hcoinbase]
  refine ⟨fun h => hiff.1 h.1, fun h => ⟨hiff.2 h, ?_⟩⟩
  intro tx htx
  obtain ⟨key, hkey, hparse⟩ := hlast tx htx
  exact ⟨key, by rw [List.getLast?_cons, hkey]; rfl, hparse⟩

namespace Devnet

/-- A template at height 1, with `exNonce` bytes of user data. -/
def sizedTemplate (txsSize exNonce : Nat) (fee : UInt64) : AliasTemplate where
  height := 1
  medianSize := 0
  alreadyGeneratedCoins := 0
  fee
  txsSize
  minerAddress := BulkLine.miner
  exNonce := List.replicate exNonce 7
  ai := AliasInfo.empty

/-- Whatever the loop asks for can be built. -/
def AlwaysBuilds (t : AliasTemplate) : Prop :=
  ∀ a ∈ t.attempts BulkLine.env BulkLine.kd BulkLine.keys,
    (t.minerTx BulkLine.env BulkLine.kd a.1 a.2).isSome = true

instance (t : AliasTemplate) : Decidable (AlwaysBuilds t) :=
  inferInstanceAs (Decidable (∀ a ∈ _, _))

theorem sizedTemplate_builds : AlwaysBuilds (sizedTemplate 1000 92 0) := by
  decide +kernel

/-- 127 bytes of extra field, and a coinbase one byte too short for the size it
was built for. -/
theorem stuckTemplate_builds : AlwaysBuilds (sizedTemplate 50584 92 2325348894) ∧
    (sizedTemplate 50584 92 2325348894).coinbase BulkLine.env BulkLine.kd BulkLine.keys = none := by
  decide +kernel

end Devnet

/-- A block far below the limit settles at once. -/
theorem template_loop_converges_small :
    (∃ tryCount < 10, (Devnet.sizedTemplate 1000 92 0).Settles
      ((Devnet.sizedTemplate 1000 92 0).sizeTried tryCount)) ∧
    ∃ tx, (Devnet.sizedTemplate 1000 92 0).coinbase BulkLine.env BulkLine.kd BulkLine.keys =
      some tx := by
  have hsettles : ∃ tryCount < 10, (Devnet.sizedTemplate 1000 92 0).Settles
      ((Devnet.sizedTemplate 1000 92 0).sizeTried tryCount) := ⟨0, by omega, by decide +kernel⟩
  exact ⟨hsettles, ((template_loop_converges_iff BulkLine.steady_env.prefixBlobsize
    Devnet.sizedTemplate_builds).2 hsettles).1⟩

/-- The loop runs out of tries, although every coinbase it asks for is built. -/
theorem template_loop_stuck :
    ¬ ∀ (t : AliasTemplate) (keys : Nat → SecretKey), t.exNonce.length ≤ 255 →
      (∀ a ∈ t.attempts BulkLine.env BulkLine.kd keys,
        (t.minerTx BulkLine.env BulkLine.kd a.1 a.2).isSome = true) →
      ∃ tx, t.coinbase BulkLine.env BulkLine.kd keys = some tx := by
  intro h
  obtain ⟨hbuilds, hnone⟩ := Devnet.stuckTemplate_builds
  obtain ⟨tx, htx⟩ := h _ BulkLine.keys (by decide) hbuilds
  rw [hnone] at htx
  cases htx

end DarknetSpace
