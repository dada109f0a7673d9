import DarknetSpace.Core.FarLine
import DarknetSpace.Format.MinerTx
import DarknetSpace.Pool.FillTemplate

/-!
# A block template (`create_block_template`)

The reward depends on the size of the block and the size on the outputs the
reward is split into, so the coinbase is built over and over, padded with zeros
where it came out too short, until its size is the one its reward was computed
for.

The validator computes the reward again. Its median is that of the last blocks,
the template's is half the limit that was cached when the last block was pushed;
and where the template gives a tenth away, rounded down, the validator wants ten
times the gift to be the reward.
-/

namespace DarknetSpace

/-- `BLOCK_FLAGS_SUPPRESS_DONATION` -/
def blockFlagsSuppressDonation : UInt8 := 0x01

/-! ## The coinbase that fits -/

/-- What a template is built from, besides the size of the block. -/
structure TemplateParams where
  height : Nat
  medianSize : Nat
  alreadyGeneratedCoins : UInt64
  fee : UInt64
  txsSize : Nat
  minerAddress : AccountPublicAddress
  exNonce : Blob

/-- `construct_miner_tx` with at most eleven outputs for the miner. -/
def TemplateParams.minerTx (t : TemplateParams) (env : Env) (kd : KeyDerivation)
    (size : Nat) (txkey : SecretKey) : Option Transaction :=
  constructMinerTx env kd t.height t.medianSize t.alreadyGeneratedCoins size t.fee t.minerAddress
    txkey t.exNonce 11

/-- The size of a block with this coinbase. -/
def TemplateParams.sizeWith (t : TemplateParams) (env : Env) (tx : Transaction) : Nat :=
  t.txsSize + getObjectBlobsize env tx.toTransactionPrefix

/-- `miner_tx.extra.insert(end, delta, 0)`. -/
def padExtra (tx : Transaction) (delta : Nat) : Transaction :=
  { tx with extra := tx.extra ++ List.replicate delta 0 }

/-- One try ends with a coinbase, with a failure, or with another size to try. -/
inductive Try where
  | done (tx : Transaction)
  | failed
  | again (cumulativeSize : Nat)

/-- The body of the loop over `try_count`. -/
def TemplateParams.tryOnce (t : TemplateParams) (env : Env) (kd : KeyDerivation)
    (cumulativeSize : Nat) (txkey : SecretKey) : Try :=
  match t.minerTx env kd cumulativeSize txkey with
  | none => .failed
  | some tx =>
    if t.sizeWith env tx > cumulativeSize then .again (t.sizeWith env tx)
    else if t.sizeWith env tx < cumulativeSize then
      let delta := cumulativeSize - t.sizeWith env tx
      if cumulativeSize ≠ t.sizeWith env (padExtra tx delta) then
        if cumulativeSize + 1 ≠ t.sizeWith env (padExtra tx delta) then .failed
        else if cumulativeSize ≠ t.sizeWith env (padExtra tx (delta - 1)) then
          -- not lucky, -1 makes varint-counter size smaller
          .again (cumulativeSize + (delta - 1))
        else .done (padExtra tx (delta - 1))
      else .done (padExtra tx delta)
    else .done tx

/-- The loop, with the keys that `keypair::generate` comes up with. -/
def TemplateParams.tries (t : TemplateParams) (env : Env) (kd : KeyDerivation) :
    (left : Nat) → (cumulativeSize : Nat) → (keys : Nat → SecretKey) → Option Transaction
  | 0, _, _ => none
  | left + 1, cumulativeSize, keys =>
    match t.tryOnce env kd cumulativeSize (keys 0) with
    | .done tx => some tx
    | .failed => none
    | .again size => t.tries env kd left size (fun k => keys (k + 1))

/-- Both phases of the coinbase: one with the size of the transactions alone,
then up to ten tries. -/
def TemplateParams.coinbase (t : TemplateParams) (env : Env) (kd : KeyDerivation)
    (keys : Nat → SecretKey) : Option Transaction :=
  match t.minerTx env kd t.txsSize (keys 0) with
  | none => none
  | some tx => t.tries env kd 10 (t.sizeWith env tx) (fun k => keys (k + 1))

/-- `create_block_template` without an alias, on a pool sorted as `txs`; `none`
where the source returns `false`. The amount that
`get_required_donations_value_for_next_block` comes up with is handed on and
never used. -/
def createBlockTemplate (env : Env) (kd : KeyDerivation) (now : Nat) (n : Node)
    (txs : List (Hash × TxDetails)) (minerAddress : AccountPublicAddress) (exNonce : Blob)
    (voteForDonation : Bool) (keys : Nat → SecretKey) : Except Exn (Option Block) :=
  let height := n.chain.mBlocks.length
  let medianSize := n.chain.mCurrentBlockCumulSzLimit / 2
  if Storage.getDifficultyForNextBlock n.chain.mBlocks = 0 then .ok none
  else
    match n.chain.mBlocks.getLast? with
    | none => .error .undefinedBehaviour
    | some last =>
      match n.pool.fillBlockTemplate env now n.chain txs medianSize last.alreadyGeneratedCoins
          height with
      | .error e => .error e
      | .ok none => .ok none
      | .ok (some filled) =>
        let t : TemplateParams :=
          { height, medianSize, alreadyGeneratedCoins := last.alreadyGeneratedCoins,
            fee := filled.fee, txsSize := filled.totalSize, minerAddress, exNonce }
        match t.coinbase env kd keys with
        | none => .ok none
        | some minerTx =>
          .ok (some
            { majorVersion := UInt8.ofNat currentBlockMajorVersion
              minorVersion := 0
              timestamp := UInt64.ofNat now
              prevId := n.chain.getTopBlockId env
              nonce := 0
              flags := if voteForDonation then 0 else blockFlagsSuppressDonation
              minerTx
              txHashes := filled.txHashes })

/-! ## What comes out of the tries -/

section

variable {env : Env} {kd : KeyDerivation} {t : TemplateParams}

/-- A coinbase built for the size it gives the block, but for some zeros. -/
structure TemplateParams.Fits (t : TemplateParams) (env : Env) (kd : KeyDerivation)
    (tx : Transaction) : Prop where
  built : ∃ txkey tx₀ pad reward, tx = padExtra tx₀ pad ∧
    MinerTx env kd t.height t.medianSize t.alreadyGeneratedCoins (t.sizeWith env tx) t.fee
      t.minerAddress txkey t.exNonce 11 reward tx₀

theorem padExtra_zero (tx : Transaction) : padExtra tx 0 = tx := by
  unfold padExtra
  rw [List.replicate_zero, List.append_nil]

/-- A try that is done gives a coinbase of the right size. -/
theorem TemplateParams.tryOnce_done {size : Nat} {txkey : SecretKey} {tx : Transaction}
    (h : t.tryOnce env kd size txkey = .done tx) : t.Fits env kd tx := by
  -- every way out compares the size with the one the coinbase was built for
  have hfits : ∀ tx₀ pad, t.minerTx env kd size txkey = some tx₀ →
      size = t.sizeWith env (padExtra tx₀ pad) → t.Fits env kd (padExtra tx₀ pad) := by
    intro tx₀ pad hbuilt hsize
    obtain ⟨reward, hminer⟩ := constructMinerTx_some hbuilt
    exact ⟨txkey, tx₀, pad, reward, rfl, hsize ▸ hminer⟩
  unfold TemplateParams.tryOnce at h
  split at h
  · cases h
  · next tx₀ hbuilt =>
    split at h
    · cases h
    · next hle =>
      split at h
      · simp only at h
        split at h
        · split at h
          · cases h
          · split at h
            · cases h
            · next hsize =>
              cases h
              exact hfits _ _ hbuilt (Classical.not_not.1 hsize)
        · next hsize =>
          cases h
          exact hfits _ _ hbuilt (Classical.not_not.1 hsize)
      · next hge =>
        cases h
        have := hfits tx 0 hbuilt (by rw [padExtra_zero]; omega)
        rwa [padExtra_zero] at this

/-- So do several, by induction on the tries that are left. -/
theorem TemplateParams.tries_some {left size : Nat} {keys : Nat → SecretKey} {tx : Transaction}
    (h : t.tries env kd left size keys = some tx) : t.Fits env kd tx := by
  induction left generalizing size keys with
  | zero => cases h
  | succ left ih =>
    unfold TemplateParams.tries at h
    split at h
    · next hdone =>
      cases h
      exact tryOnce_done hdone
    · cases h
    · exact ih h

theorem TemplateParams.coinbase_fits {keys : Nat → SecretKey} {tx : Transaction}
    (h : t.coinbase env kd keys = some tx) : t.Fits env kd tx := by
  unfold TemplateParams.coinbase at h
  split at h
  · cases h
  · exact tries_some h

end

/-- The size of a template with the transactions it lists. -/
def templateSize (env : Env) (p : TxMemoryPool) (b : Block) : Nat :=
  p.poolSize b.txHashes + getObjectBlobsize env b.minerTx.toTransactionPrefix

/-- What a template's coinbase looks like, in terms of the node it was made on. -/
theorem createBlockTemplate_some {env : Env} {kd : KeyDerivation} {now : Nat} {n : Node}
    {txs : List (Hash × TxDetails)} {miner : AccountPublicAddress} {exNonce : Blob} {vote : Bool}
    {keys : Nat → SecretKey} {b : Block}
    (htxs : ∀ e ∈ txs, n.pool.mTransactions[e.1]? = some e.2)
    (h : createBlockTemplate env kd now n txs miner exNonce vote keys = .ok (some b)) :
    ∃ txkey tx₀ pad reward, b.minerTx = padExtra tx₀ pad ∧
      MinerTx env kd n.chain.mBlocks.length (n.chain.mCurrentBlockCumulSzLimit / 2)
        (alreadyGeneratedCoins n.chain.mBlocks) (templateSize env n.pool b)
        (n.pool.poolFee b.txHashes) miner txkey exNonce 11 reward tx₀ := by
  unfold createBlockTemplate at h
  simp only at h
  split at h
  · cases h
  · split at h
    · cases h
    · next last hlast =>
      split at h
      · cases h
      · cases h
      · next filled hfilled =>
        split at h
        · cases h
        · next minerTx hminer =>
          cases h
          obtain ⟨hsize, hfee⟩ := TxMemoryPool.fillBlockTemplate_totals htxs hfilled
          obtain ⟨txkey, tx₀, pad, reward, hpad, hbuilt⟩ :=
            (TemplateParams.coinbase_fits hminer).built
          have hgenerated : alreadyGeneratedCoins n.chain.mBlocks = last.alreadyGeneratedCoins := by
            unfold alreadyGeneratedCoins
            rw [hlast]
            rfl
          refine ⟨txkey, tx₀, pad, reward, hpad, ?_⟩
          rw [hgenerated]
          unfold templateSize
          unfold TemplateParams.sizeWith at hbuilt
          simp only at hbuilt ⊢
          rw [← hsize, ← hfee]
          exact hbuilt

/-! ## What the validator makes of it -/

/-- The reward is the one the validator computes; and where a tenth is given
away, it is ten times that tenth and no sum overflows. -/
def TemplateSound (env : Env) (n : Node) (b : Block) : Prop :=
  ∃ reward, getBlockReward (n.chain.mCurrentBlockCumulSzLimit / 2) (templateSize env n.pool b)
      (alreadyGeneratedCoins n.chain.mBlocks) n.chain.mBlocks.length = some reward ∧
    getBlockReward (median (Storage.lastBlocksSizes n.chain.mBlocks)) (templateSize env n.pool b)
      (alreadyGeneratedCoins n.chain.mBlocks) n.chain.mBlocks.length = some reward ∧
    (currencyDonationsStartBlockno ≤ n.chain.mBlocks.length →
      reward.toNat % 10 = 0 ∧
        (reward - reward / 10 + n.pool.poolFee b.txHashes).toNat + (reward / 10).toNat < 2 ^ 64)

/-- Both checks of a coinbase on top of the chain. -/
def CoinbaseValid (env : Env) (n : Node) (b : Block) : Prop :=
  prevalidateMinerTransaction b n.chain.mBlocks.length = true ∧
    ∃ r, validateMinerTransaction env n.chain.mBlocks b (templateSize env n.pool b)
      (n.pool.poolFee b.txHashes) (alreadyGeneratedCoins n.chain.mBlocks) = .ok (some r)

/-- Ten times a tenth is the amount itself just when it ends in a zero. -/
theorem ten_mul_div_iff (a : UInt64) : a = 10 * (a / 10) ↔ a.toNat % 10 = 0 := by
  have hlt := a.toNat_lt
  have htimes : (10 * (a / 10)).toNat = 10 * (a.toNat / 10) := by
    rw [UInt64.toNat_mul, UInt64.toNat_div]
    show 10 * (a.toNat / 10) % 2 ^ 64 = _
    omega
  rw [← UInt64.toNat_inj, htimes]
  omega

section

variable {env : Env} {kd : KeyDerivation} {n : Node} {miner : AccountPublicAddress}
  {txkey : SecretKey} {exNonce : Blob} {reward : UInt64} {b : Block} {tx₀ : Transaction} {pad : Nat}

/-- The coinbase of a template passes the checks of its form. -/
theorem prevalidate_minerTx (hheight : n.chain.mBlocks.length + currencyMinedMoneyUnlockWindow < 2 ^ 64)
    (hpad : b.minerTx = padExtra tx₀ pad)
    (hm : MinerTx env kd n.chain.mBlocks.length (n.chain.mCurrentBlockCumulSzLimit / 2)
      (alreadyGeneratedCoins n.chain.mBlocks) (templateSize env n.pool b)
      (n.pool.poolFee b.txHashes) miner txkey exNonce 11 reward tx₀) :
    prevalidateMinerTransaction b n.chain.mBlocks.length = true ↔
      (reward - totalDonationAmount n.chain.mBlocks.length reward +
        n.pool.poolFee b.txHashes).toNat +
        (totalDonationAmount n.chain.mBlocks.length reward).toNat < 2 ^ 64 := by
  have hvin : b.minerTx.vin = [.gen (UInt64.ofNat n.chain.mBlocks.length)] := by
    rw [hpad]
    exact hm.vin
  have hlock : b.minerTx.unlockTime.toNat =
      n.chain.mBlocks.length + currencyMinedMoneyUnlockWindow := by
    rw [hpad]
    show tx₀.unlockTime.toNat = _
    rw [hm.unlockTime]
    exact UInt64.toNat_ofNat_of_lt' hheight
  have hgen : (UInt64.ofNat n.chain.mBlocks.length).toNat = n.chain.mBlocks.length :=
    UInt64.toNat_ofNat_of_lt' (show n.chain.mBlocks.length < 2 ^ 64 by omega)
  have houts : checkOutsOverflow b.minerTx.toTransactionPrefix = true ↔
      outsTotal tx₀.toTransactionPrefix < 2 ^ 64 := by
    rw [hpad]
    exact checkOutsOverflow_iff
  unfold prevalidateMinerTransaction
  rw [hvin]
  simp only [hgen, hlock, decide_true, Bool.true_and]
  rw [houts, hm.outsTotal_eq]

/-- It passes the check of its reward, if that ends in a zero where the block suppresses donations.
-/
theorem validate_minerTx (hfinds : kd.Finds env miner)
    (hheight : n.chain.mBlocks.length + currencyMinedMoneyUnlockWindow < 2 ^ 64)
    (hpad : b.minerTx = padExtra tx₀ pad)
    (hm : MinerTx env kd n.chain.mBlocks.length (n.chain.mCurrentBlockCumulSzLimit / 2)
      (alreadyGeneratedCoins n.chain.mBlocks) (templateSize env n.pool b)
      (n.pool.poolFee b.txHashes) miner txkey exNonce 11 reward tx₀) :
    (∃ r, validateMinerTransaction env n.chain.mBlocks b (templateSize env n.pool b)
      (n.pool.poolFee b.txHashes) (alreadyGeneratedCoins n.chain.mBlocks) = .ok (some r)) ↔
      getBlockReward (median (Storage.lastBlocksSizes n.chain.mBlocks)) (templateSize env n.pool b)
        (alreadyGeneratedCoins n.chain.mBlocks) n.chain.mBlocks.length = some reward ∧
      (currencyDonationsStartBlockno ≤ n.chain.mBlocks.length → reward.toNat % 10 = 0) := by
  have hvin : b.minerTx.vin = [.gen (UInt64.ofNat n.chain.mBlocks.length)] := by
    rw [hpad]
    exact hm.vin
  have hgen : (getBlockHeight b).toNat = n.chain.mBlocks.length := by
    unfold getBlockHeight
    rw [hvin]
    exact UInt64.toNat_ofNat_of_lt' (show n.chain.mBlocks.length < 2 ^ 64 by omega)
  have hmoney : getOutsMoneyAmount b.minerTx.toTransactionPrefix =
      reward + n.pool.poolFee b.txHashes := by
    rw [hpad]
    exact hm.outsMoney_eq
  have hgift : (getDonationParts (totalDonationAmount n.chain.mBlocks.length reward)).2 +
      (getDonationParts (totalDonationAmount n.chain.mBlocks.length reward)).1 =
        totalDonationAmount n.chain.mBlocks.length reward := UInt64.sub_add_cancel _ _
  have hlook : lookforDonation env b.minerTx = .ok (some
      ((getDonationParts (totalDonationAmount n.chain.mBlocks.length reward)).2,
        (getDonationParts (totalDonationAmount n.chain.mBlocks.length reward)).1)) := by
    have hextra : b.minerTx.toTransactionPrefix.extra = tx₀.extra ++ List.replicate pad 0 := by
      rw [hpad]
      rfl
    obtain ⟨info, hparse, hkey⟩ := parse_minerExtra env hm.extra hextra
    refine lookforDonation_minerOuts hfinds hparse hkey (by rw [hpad]; exact hm.vout) ?_
    intro hzero
    have hsum := getDonationParts_sum (totalDonationAmount n.chain.mBlocks.length reward)
    rw [hzero] at hsum
    show totalDonationAmount n.chain.mBlocks.length reward / 10 = 0
    rw [← UInt64.toNat_inj, UInt64.toNat_div]
    have hpart : (getDonationParts (totalDonationAmount n.chain.mBlocks.length reward)).1.toNat =
        (totalDonationAmount n.chain.mBlocks.length reward).toNat / 10 := UInt64.toNat_div _ _
    rw [hpart] at hsum
    show (totalDonationAmount n.chain.mBlocks.length reward).toNat / 10 = 0
    have hzero0 : (0 : UInt64).toNat = 0 := rfl
    omega
  -- the reward the validator computes, and its comparison with the amounts
  have hcompare : ∀ base : UInt64, base + n.pool.poolFee b.txHashes ≠
      reward + n.pool.poolFee b.txHashes ↔ base ≠ reward := by
    intro base
    rw [ne_eq, ne_eq, UInt64.add_left_inj]
  unfold validateMinerTransaction
  rw [hgen, hmoney]
  by_cases hstart : n.chain.mBlocks.length ≥ currencyDonationsStartBlockno
  · have htotal : totalDonationAmount n.chain.mBlocks.length reward = reward / 10 := if_pos hstart
    simp only [if_pos hstart, hlook, bind, Except.bind, pure, Except.pure]
    cases hbase : getBlockReward (median (Storage.lastBlocksSizes n.chain.mBlocks))
        (templateSize env n.pool b) (alreadyGeneratedCoins n.chain.mBlocks)
        n.chain.mBlocks.length with
    | none => simp
    | some base =>
      rw [htotal] at hgift ⊢
      simp only [hgift, hcompare]
      by_cases hsame : base = reward
      · rw [hsame]
        by_cases hten : reward = 10 * (reward / 10)
        · rw [if_neg (fun hne => hne.2 hten), if_neg (fun hne => hne rfl)]
          exact ⟨fun _ => ⟨rfl, fun _ => (ten_mul_div_iff reward).1 hten⟩, fun _ => ⟨_, rfl⟩⟩
        · rw [if_pos ⟨hstart, hten⟩]
          exact ⟨fun ⟨_, hr⟩ => (nomatch hr),
            fun ⟨_, hr⟩ => absurd ((ten_mul_div_iff reward).2 (hr hstart)) hten⟩
      · have hnone : ∀ c : Prop, [Decidable c] → (if c then (Except.ok none : Except Exn _) else
            if base ≠ reward then .ok none
            else .ok (some (base, (getDonationParts (reward / 10)).1 +
              (getDonationParts (reward / 10)).2))) = .ok none := by
          intro c _
          rw [if_pos hsame, ite_self]
        rw [hnone]
        exact ⟨fun ⟨_, hr⟩ => (nomatch hr), fun ⟨hr, _⟩ => absurd (Option.some.inj hr) hsame⟩
  · simp only [if_neg hstart, bind, Except.bind, pure, Except.pure]
    cases hbase : getBlockReward (median (Storage.lastBlocksSizes n.chain.mBlocks))
        (templateSize env n.pool b) (alreadyGeneratedCoins n.chain.mBlocks)
        n.chain.mBlocks.length with
    | none => simp
    | some base =>
      simp only [hcompare]
      rw [if_neg (fun hne => hstart hne.1)]
      by_cases hsame : base = reward
      · rw [if_neg (fun hne => hne hsame), hsame]
        exact ⟨fun _ => ⟨rfl, fun h => absurd h hstart⟩, fun _ => ⟨_, rfl⟩⟩
      · rw [if_pos hsame]
        exact ⟨fun ⟨_, hr⟩ => (nomatch hr), fun ⟨hr, _⟩ => absurd (Option.some.inj hr) hsame⟩

end

/-- A template's coinbase passes both checks exactly when its reward is sound. -/
theorem template_coinbase_valid_iff {env : Env} {kd : KeyDerivation} {now : Nat} {n : Node}
    {txs : List (Hash × TxDetails)} {miner : AccountPublicAddress} {exNonce : Blob} {vote : Bool}
    {keys : Nat → SecretKey} {b : Block} (hfinds : kd.Finds env miner)
    (hheight : n.chain.mBlocks.length + currencyMinedMoneyUnlockWindow < 2 ^ 64)
    (htxs : ∀ e ∈ txs, n.pool.mTransactions[e.1]? = some e.2)
    (h : createBlockTemplate env kd now n txs miner exNonce vote keys = .ok (some b)) :
    CoinbaseValid env n b ↔ TemplateSound env n b := by
  obtain ⟨txkey, tx₀, pad, reward, hpad, hm⟩ := createBlockTemplate_some htxs h
  have hreward := hm.rewarded
  unfold CoinbaseValid TemplateSound
  rw [prevalidate_minerTx hheight hpad hm, validate_minerTx hfinds hheight hpad hm]
  constructor
  · intro ⟨hover, hbase, hten⟩
    refine ⟨reward, hreward, hbase, ?_⟩
    intro hstart
    have htotal : totalDonationAmount n.chain.mBlocks.length reward = reward / 10 := if_pos hstart
    rw [htotal] at hover
    exact ⟨hten hstart, hover⟩
  · intro ⟨reward', hreward', hbase, hgift⟩
    cases Option.some.inj (hreward.symm.trans hreward')
    refine ⟨?_, hbase, fun hstart => (hgift hstart).1⟩
    by_cases hstart : n.chain.mBlocks.length ≥ currencyDonationsStartBlockno
    · have htotal : totalDonationAmount n.chain.mBlocks.length reward = reward / 10 := if_pos hstart
      rw [htotal]
      exact (hgift hstart).2
    · have htotal : totalDonationAmount n.chain.mBlocks.length reward = 0 := if_neg hstart
      rw [htotal]
      exact UInt64.toNat_lt _

/-! ## Blocks above the zone -/

/-- A limit that is up to date makes the template's median as good as the
validator's. -/
theorem getBlockReward_of_fresh {s : Storage}
    (h : s.mCurrentBlockCumulSzLimit = s.updateNextComulativeSizeLimit.mCurrentBlockCumulSzLimit)
    {size : Nat} {generated : UInt64} :
    getBlockReward (s.mCurrentBlockCumulSzLimit / 2) size generated s.mBlocks.length =
      getBlockReward (median (Storage.lastBlocksSizes s.mBlocks)) size generated
        s.mBlocks.length := by
  have hmax : max (s.mCurrentBlockCumulSzLimit / 2) (getBlockGrantedFullRewardZone s.mBlocks.length) =
      max (median (Storage.lastBlocksSizes s.mBlocks))
        (getBlockGrantedFullRewardZone s.mBlocks.length) := by
    rw [h]
    show max ((if median (Storage.lastBlocksSizes s.mBlocks) ≤
        getBlockGrantedFullRewardZone s.mBlocks.length then
        getBlockGrantedFullRewardZone s.mBlocks.length
      else median (Storage.lastBlocksSizes s.mBlocks)) * 2 / 2) _ = _
    rw [Nat.mul_div_cancel _ (by omega)]
    split
    · omega
    · rfl
  unfold getBlockReward
  rw [hmax]

/-- The ids of the line are its heights. -/
theorem FarLine.At.blockId {env : Env} {height i : Nat} {n : Node}
    (h : FarLine.At env height n) (hi : i < height) :
    n.chain.getBlockIdByHeight env i = BitVec.ofNat 256 (i + 1) := by
  have hget : (blockIds env n.chain.mBlocks)[i]? = some (BitVec.ofNat 256 (i + 1)) := by
    rw [← h.sound.index, h.index, List.getElem?_map, List.getElem?_range hi]
    rfl
  unfold Storage.getBlockIdByHeight
  unfold blockIds at hget
  rw [List.getElem?_map] at hget
  cases he : n.chain.mBlocks[i]? with
  | none =>
    rw [he] at hget
    cases hget
  | some e =>
    rw [he] at hget
    exact Option.some.inj hget

namespace BulkLine

/-- A payment out of the coinbase at a height below 61, with that one output
over and over in its ring. -/
def spend (height : UInt8) : Transaction where
  version := 1
  unlockTime := height.toUInt64
  vin := [.toKey (Devnet.reward (Devnet.emitted height.toNat) - FarLine.donation height.toNat)
    (List.replicate 235 0) (BitVec.ofNat 256 (height.toNat + 1))]
  vout := [⟨coin, .toKey 9 0⟩]
  extra := []
  signatures := [List.replicate 235 nullSig]

/-- The line's network with accounts that own their spend key and nothing else. -/
def env : Env :=
  { FarLine.env with
    isOutToAcc := fun acc key _ _ => key == acc.mAccountAddress.mSpendPublicKey
    parseTx := fun blob => match blob with
      | [height] => some (spend height)
      | _ => none
    donationsAccount := ⟨⟨6, 6⟩, 0⟩
    royaltyAccount := ⟨⟨7, 7⟩, 0⟩ }

/-- Keys that are their own addresses. -/
def kd : KeyDerivation where
  pub _ := 3
  outKey address _ _ := some address.mSpendPublicKey

/-- The miner's address. -/
def miner : AccountPublicAddress := ⟨1, 1⟩

/-- One key for all tries. -/
def keys (_ : Nat) : SecretKey := 0

/-- A time behind all blocks. -/
def now : Nat := 300000

theorem steady_env : FarLine.Steady env where
  hashBlock := rfl
  hashPrefix := rfl
  prefixBlobsize := rfl
  checkHash _ _ := rfl
  donations _ _ := rfl

/-- The derivation finds the miner's own outputs. -/
theorem finds : kd.Finds env miner where
  donations _ _ key h := by
    cases h
    rfl
  royalty _ _ key h := by
    cases h
    rfl
  miner _ _ key h := by
    cases h
    rfl

/-- Sixty blocks on top of the first one, and two payments. -/
def start : Option Node :=
  runFromGenesis env now 3 ∅ (FarLine.block 0 0) (FarLine.line 1 60 ++ FarLine.incomings [[0], [1]])

/-- A payment as the pool files it. -/
def pooled (height : UInt8) : Hash × TxDetails :=
  (getTransactionHash env (spend height),
    TxMemoryPool.details env now (spend height)
      (Devnet.reward (Devnet.emitted height.toNat) - FarLine.donation height.toNat - coin) false
      (some (height.toNat, BitVec.ofNat 256 (height.toNat + 1))))

theorem start_pool : start.map (·.pool.mTransactions.toList) = some [pooled 0, pooled 1] := by
  decide +kernel

/-- The line can be made longer without the pool being touched. -/
theorem exists_at {height : Nat} (hlow : 61 ≤ height) (hhigh : height ≤ 5000) :
    ∃ n, FarLine.At env height n ∧ Reachable env n ∧
      n.pool.mTransactions.toList = [pooled 0, pooled 1] := by
  obtain ⟨n, hstart, hpool⟩ := Option.map_eq_some_iff.1 start_pool
  have hreach : Reachable env n := reachable_of_runFromGenesis hstart
  have hnow : 60 * height ≤ now := by
    show 60 * height ≤ 300000
    omega
  obtain ⟨n₁, hadd, hat, -⟩ :=
    (FarLine.At.initial env).next steady_env (by omega) 3 (Nat.zero_le now)
  obtain ⟨n₂, hrun, hat, -⟩ := FarLine.At.run steady_env hat
    (show 0 + 1 + 60 < 2 ^ 31 by omega) 3 (show 60 * (0 + 1 + 60) ≤ now by omega)
  have htxs : runEvents env now 3 (FarLine.incomings [[0], [1]]) n₂ = some n := by
    unfold start runFromGenesis at hstart
    rw [hadd] at hstart
    simp only [if_true] at hstart
    rwa [FarLine.runEvents_append, hrun, Option.bind_some] at hstart
  obtain ⟨m, hlater, hat, hsame⟩ := FarLine.At.run steady_env (hat.incomings htxs)
    (show 0 + 1 + 60 + (height - 61) < 2 ^ 31 by omega) 3
    (show 60 * (0 + 1 + 60 + (height - 61)) ≤ now by omega)
  rw [show 0 + 1 + 60 + (height - 61) = height by omega] at hat
  exact ⟨m, hat, hreach.runEvents hlater, by rw [hsame]; exact hpool⟩

/-- Both payments stay ready. -/
theorem ready {height : Nat} {n : Node} (h : FarLine.At env height n) {k : UInt8}
    (hk : k.toNat < height) :
    TxMemoryPool.isTransactionReadyToGo env now n.chain (pooled k).2 = .ok (true, (pooled k).2) := by
  have hne : BitVec.ofNat 256 (k.toNat + 1) ≠ nullHash := by
    intro h0
    have := congrArg BitVec.toNat h0
    rw [BitVec.toNat_ofNat] at this
    have hlt := k.toNat_lt
    have hzero : nullHash.toNat = 0 := rfl
    omega
  have hlow : ¬ (pooled k).2.maxUsedBlockHeight ≥ n.chain.getCurrentBlockchainHeight := by
    show ¬ k.toNat ≥ n.chain.mBlocks.length
    rw [h.length]
    omega
  have hid : ¬ n.chain.getBlockIdByHeight env (pooled k).2.maxUsedBlockHeight ≠
      (pooled k).2.maxUsedBlockId := fun hdiff => hdiff (h.blockId hk)
  have hspent : n.chain.haveTxKeyimgesAsSpent (spend k).toTransactionPrefix = false := by
    show (n.chain.mSpentKeys.contains _ || false) = false
    rw [h.spent]
    rfl
  unfold TxMemoryPool.isTransactionReadyToGo
  rw [if_neg (show ¬ (pooled k).2.maxUsedBlockId = nullHash from hne), if_neg hlow, if_neg hid]
  show Except.ok (!n.chain.haveTxKeyimgesAsSpent (spend k).toTransactionPrefix, (pooled k).2) = _
  rw [hspent]
  rfl

/-- Each payment brings more than it costs in reward. -/
def pays (height : Nat) : Bool :=
  match getBlockReward 30000 currencyCoinbaseBlobReservedSize (Devnet.emitted height) height,
    getBlockReward 30000 ((pooled 0).2.blobSize + currencyCoinbaseBlobReservedSize) (Devnet.emitted height) height,
    getBlockReward 30000 ((pooled 0).2.blobSize + (pooled 1).2.blobSize + currencyCoinbaseBlobReservedSize)
      (Devnet.emitted height) height with
  | some r₀, some r₁, some r₂ =>
    decide (r₀ < r₁ + (pooled 0).2.fee) && decide (r₁ + (pooled 0).2.fee < r₂ + ((pooled 0).2.fee + (pooled 1).2.fee))
  | _, _, _ => false

/-- What the template at `height` is built from. -/
def params (height : Nat) : TemplateParams where
  height
  medianSize := 30000
  alreadyGeneratedCoins := Devnet.emitted height
  fee := (pooled 0).2.fee + (pooled 1).2.fee
  txsSize := (pooled 0).2.blobSize + (pooled 1).2.blobSize
  minerAddress := miner
  exNonce := []

/-- The template is filled with both. -/
theorem filled {height : Nat} {n : Node} (h : FarLine.At env height n) (hheight : 2 ≤ height)
    (hpays : pays height = true) :
    ∃ pool, n.pool.fillBlockTemplate env now n.chain [pooled 0, pooled 1] 30000
      (Devnet.emitted height) height =
        .ok (some ⟨[(pooled 0).1, (pooled 1).1], (pooled 0).2.blobSize + (pooled 1).2.blobSize, (pooled 0).2.fee + (pooled 1).2.fee, pool⟩) := by
  unfold pays at hpays
  split at hpays
  · next r₀ r₁ r₂ hr₀ hr₁ hr₂ =>
    rw [Bool.and_eq_true, decide_eq_true_eq, decide_eq_true_eq] at hpays
    exact TxMemoryPool.fillBlockTemplate_pair n.pool (ready h (show 0 < height by omega))
      (ready h (show 1 < height by omega)) rfl (by decide) hr₀ hr₁ hr₂ hpays.1 hpays.2
  · cases hpays

/-- There is a template at any height whose coinbase can be made. -/
theorem exists_template {height : Nat} {tx : Transaction} (hlow : 61 ≤ height)
    (hhigh : height ≤ 5000) (hpays : pays height = true)
    (htx : (params height).coinbase env kd keys = some tx) :
    ∃ n b, FarLine.At env height n ∧ Reachable env n ∧
      n.pool.mTransactions.toList = [pooled 0, pooled 1] ∧
      createBlockTemplate env kd now n [pooled 0, pooled 1] miner [] true keys = .ok (some b) ∧
      templateSize env n.pool b = (params height).sizeWith env tx := by
  obtain ⟨n, hat, hreach, hpool⟩ := exists_at hlow hhigh
  obtain ⟨pool, hfilled⟩ := filled hat (by omega) hpays
  have hmedian := hat.halfLimit (by omega) (by omega)
  obtain ⟨last, hlast⟩ : ∃ last, n.chain.mBlocks.getLast? = some last := by
    refine Option.ne_none_iff_exists'.1 ?_
    intro hnone
    have hlen := hat.length
    rw [List.getLast?_eq_none_iff.1 hnone, List.length_nil] at hlen
    omega
  have hgenerated : last.alreadyGeneratedCoins = Devnet.emitted height := by
    rw [← hat.generated]
    unfold alreadyGeneratedCoins
    rw [hlast]
    rfl
  have hentry := TxMemoryPool.entry_of_toList hpool
  have hcreate : ∃ b, createBlockTemplate env kd now n [pooled 0, pooled 1] miner [] true keys =
      .ok (some b) ∧ b.minerTx = tx ∧ b.txHashes = [(pooled 0).1, (pooled 1).1] := by
    unfold createBlockTemplate
    simp only [hat.difficulty (show height < 2 ^ 31 by omega), hlast, hmedian, hgenerated, hat.length,
      hfilled]
    rw [if_neg Nat.one_ne_zero]
    have htx : (TemplateParams.mk height 30000 (Devnet.emitted height)
        ((pooled 0).2.fee + (pooled 1).2.fee) ((pooled 0).2.blobSize + (pooled 1).2.blobSize)
        miner []).coinbase env kd keys = some tx := htx
    rw [htx]
    exact ⟨_, rfl, rfl, rfl⟩
  obtain ⟨b, hb, hminer, hhashes⟩ := hcreate
  refine ⟨n, b, hat, hreach, hpool, hb, ?_⟩
  have hsize : n.pool.poolSize [(pooled 0).1, (pooled 1).1] =
      (pooled 0).2.blobSize + (pooled 1).2.blobSize := by
    unfold TxMemoryPool.poolSize
    rw [List.map_cons, List.map_singleton, hentry _ (List.mem_cons_self),
      hentry _ (List.mem_cons_of_mem _ List.mem_cons_self)]
    simp only [Option.elim_some, List.sum_cons, List.sum_nil, Nat.add_zero]
  unfold templateSize TemplateParams.sizeWith
  rw [hhashes, hminer, hsize]
  rfl

/-- The coinbases of the templates at the two heights. -/
def coinbaseAt (height : Nat) : Transaction :=
  ((params height).coinbase env kd keys).getD (FarLine.coinbase height 0)

theorem coinbase_61 : pays 61 = true ∧
    (params 61).coinbase env kd keys = some (coinbaseAt 61) ∧
    (getBlockReward 30000 ((params 61).sizeWith env (coinbaseAt 61)) (Devnet.emitted 61) 61).isSome =
      true := by
  decide +kernel

theorem coinbase_4550 : pays 4550 = true ∧
    (params 4550).coinbase env kd keys = some (coinbaseAt 4550) ∧
    getBlockReward 30000 ((params 4550).sizeWith env (coinbaseAt 4550)) (Devnet.emitted 4550) 4550 =
      some 135715726900964 := by
  decide +kernel

end BulkLine

/-- At height 61, a template that pays for its size. -/
theorem template_valid_at_61 :
    ∃ n b, Reachable BulkLine.env n ∧
      n.pool.mTransactions.toList = [BulkLine.pooled 0, BulkLine.pooled 1] ∧
      createBlockTemplate BulkLine.env BulkLine.kd BulkLine.now n
        [BulkLine.pooled 0, BulkLine.pooled 1] BulkLine.miner [] true BulkLine.keys = .ok (some b) ∧
      CoinbaseValid BulkLine.env n b := by
  obtain ⟨hpays, htx, hsome⟩ := BulkLine.coinbase_61
  obtain ⟨reward, hreward⟩ := Option.isSome_iff_exists.1 hsome
  obtain ⟨n, b, hat, hreach, hpool, hb, hsize⟩ :=
    BulkLine.exists_template (Nat.le_refl 61) (by omega) hpays htx
  have hentry : ∀ e ∈ [BulkLine.pooled 0, BulkLine.pooled 1],
      n.pool.mTransactions[e.1]? = some e.2 := TxMemoryPool.entry_of_toList hpool
  refine ⟨n, b, hreach, hpool, hb, ?_⟩
  refine (template_coinbase_valid_iff BulkLine.finds (by rw [hat.length]; decide) hentry hb).2 ?_
  refine ⟨reward, ?_, ?_, ?_⟩
  · rw [hat.halfLimit (by omega) (by omega), hat.generated, hat.length, hsize]
    exact hreward
  · rw [← getBlockReward_of_fresh (hat.fresh_limit (by omega)), hat.halfLimit (by omega) (by omega),
      hat.generated, hat.length, hsize]
    exact hreward
  · intro hstart
    rw [hat.length] at hstart
    exact absurd hstart (by decide)

/-- At height 4550, the same two payments: the penalty for the size leaves a
reward that ends in a 4. -/
theorem penalised_template_refused :
    ∃ n b, Reachable BulkLine.env n ∧ n.chain.mBlocks.length = 4550 ∧
      BulkLine.kd.Finds BulkLine.env BulkLine.miner ∧
      n.pool.mTransactions.toList = [BulkLine.pooled 0, BulkLine.pooled 1] ∧
      TxMemoryPool.FeeOrder [BulkLine.pooled 0, BulkLine.pooled 1] ∧
      createBlockTemplate BulkLine.env BulkLine.kd BulkLine.now n
        [BulkLine.pooled 0, BulkLine.pooled 1] BulkLine.miner [] true BulkLine.keys = .ok (some b) ∧
      ¬ CoinbaseValid BulkLine.env n b := by
  obtain ⟨hpays, htx, hreward⟩ := BulkLine.coinbase_4550
  obtain ⟨n, b, hat, hreach, hpool, hb, hsize⟩ :=
    BulkLine.exists_template (by omega) (by omega) hpays htx
  have hentry : ∀ e ∈ [BulkLine.pooled 0, BulkLine.pooled 1],
      n.pool.mTransactions[e.1]? = some e.2 := TxMemoryPool.entry_of_toList hpool
  refine ⟨n, b, hreach, hat.length, BulkLine.finds, hpool, by unfold TxMemoryPool.FeeOrder; decide +kernel, hb, ?_⟩
  intro hvalid
  obtain ⟨txkey, tx₀, pad, reward, hpad, hm⟩ := createBlockTemplate_some hentry hb
  have hrewarded := hm.rewarded
  rw [hat.halfLimit (by omega) (by omega), hat.generated, hat.length, hsize] at hrewarded
  have hten := ((validate_minerTx BulkLine.finds (by rw [hat.length]; decide) hpad hm).1 hvalid.2).2
    (by rw [hat.length]; decide)
  rw [← Option.some.inj (hreward.symm.trans hrewarded)] at hten
  cases hten

end DarknetSpace
