import DarknetSpace.Core.Sound
import DarknetSpace.Format.Amounts

/-!
# The coins in circulation

Every block pays its coinbase the base reward and the fees of its transactions,
and adds the base reward to `already_generated_coins`. `Minted` is what a push
checks of that, in the 64-bit arithmetic of the source; it holds of every block
of every chain. Where fees and reward together fit in 64 bits it is an equation
of natural numbers, and the sums over the whole chain balance.

The sums over the chain are of natural numbers: what coinbases pay out, what
transactions spend, and `already_generated_coins`, which never exceeds the supply. That
flags do not matter comes first, since pushes and pops of other blocks change flags
below.

Main result: `coins_conserved`. The fees that were summed in 64 bits are real sums as
long as the fees and the reward of each block fit together (`FeesFit`).
-/

namespace DarknetSpace

open StateExn

/-- The base reward of the block `e` on top of `pre`. -/
def blockReward (pre : List BlockEntry) (e : BlockEntry) : Option UInt64 :=
  getBlockReward (median (Storage.lastBlocksSizes pre)) e.blockCumulativeSize
    (alreadyGeneratedCoins pre) (getBlockHeight e.bl).toNat

/-- The fees of the ordinary transactions of a block. -/
def blockFees (e : BlockEntry) : Nat :=
  (e.transactions.tail.map fun t => feeTotal t.tx.toTransactionPrefix).sum

/-- The block `e` on top of `pre` pays out `reward` and its fees, up to
wrap-around. -/
structure Minted (pre : List BlockEntry) (e : BlockEntry) (reward : UInt64) : Prop where
  base : blockReward pre e = some reward
  coinbase : ∃ cb, e.transactions.head? = some cb ∧ isCoinbase cb.tx.toTransactionPrefix = true ∧
    outsTotal cb.tx.toTransactionPrefix = (reward.toNat + blockFees e) % 2 ^ 64
  fees : ∀ t ∈ e.transactions.tail, PaysFee t.tx.toTransactionPrefix
  generated : e.alreadyGeneratedCoins = alreadyGeneratedCoins pre + reward

/-- Every block of the chain was minted on the blocks below it. -/
def MintedChain (blocks : List BlockEntry) : Prop :=
  ∀ (k : Nat) e, blocks[k]? = some e → ∃ reward, Minted (blocks.take k) e reward

/-! ## Flags do not matter -/

theorem lastBlocksSizes_forgetFlags (bs : List BlockEntry) :
    Storage.lastBlocksSizes (forgetFlags bs) = Storage.lastBlocksSizes bs := by
  unfold Storage.lastBlocksSizes forgetFlags
  rw [List.length_map, ← List.map_drop, List.map_map]
  rfl

theorem alreadyGeneratedCoins_forgetFlags (bs : List BlockEntry) :
    alreadyGeneratedCoins (forgetFlags bs) = alreadyGeneratedCoins bs := by
  unfold alreadyGeneratedCoins forgetFlags
  rw [List.getLast?_map]
  cases bs.getLast? <;> rfl

theorem blockReward_forgetFlags (pre : List BlockEntry) (e : BlockEntry) :
    blockReward (forgetFlags pre) e.forgetFlags = blockReward pre e := by
  unfold blockReward
  rw [lastBlocksSizes_forgetFlags, alreadyGeneratedCoins_forgetFlags]
  rfl

theorem blockFees_forgetFlags (e : BlockEntry) : blockFees e.forgetFlags = blockFees e := by
  unfold blockFees
  show (List.map _ (e.transactions.map TransactionEntry.forgetFlags).tail).sum = _
  rw [← List.map_tail, List.map_map]
  rfl

theorem minted_forgetFlags {pre : List BlockEntry} {e : BlockEntry} {reward : UInt64} :
    Minted (forgetFlags pre) e.forgetFlags reward ↔ Minted pre e reward := by
  have hhead : e.forgetFlags.transactions.head? =
      e.transactions.head?.map TransactionEntry.forgetFlags := List.head?_map
  have htail : e.forgetFlags.transactions.tail =
      e.transactions.tail.map TransactionEntry.forgetFlags := List.map_tail.symm
  constructor
  · intro h
    refine ⟨blockReward_forgetFlags pre e ▸ h.base, ?_, fun t ht => ?_,
      alreadyGeneratedCoins_forgetFlags pre ▸ h.generated⟩
    · obtain ⟨cb, hcb, hc, ho⟩ := h.coinbase
      rw [hhead] at hcb
      obtain ⟨cb', hcb', rfl⟩ := Option.map_eq_some_iff.1 hcb
      exact ⟨cb', hcb', hc, blockFees_forgetFlags e ▸ ho⟩
    · exact h.fees t.forgetFlags (htail ▸ List.mem_map_of_mem ht)
  · intro h
    refine ⟨(blockReward_forgetFlags pre e).trans h.base, ?_, fun t ht => ?_,
      (alreadyGeneratedCoins_forgetFlags pre).symm ▸ h.generated⟩
    · obtain ⟨cb, hcb, hc, ho⟩ := h.coinbase
      refine ⟨cb.forgetFlags, by rw [hhead, hcb]; rfl, hc, ?_⟩
      rw [blockFees_forgetFlags]
      exact ho
    · rw [htail] at ht
      obtain ⟨t', ht', rfl⟩ := List.mem_map.1 ht
      exact h.fees t' ht'

theorem mintedChain_forgetFlags {bs : List BlockEntry} :
    MintedChain (forgetFlags bs) ↔ MintedChain bs := by
  unfold MintedChain
  have htake : ∀ k, (forgetFlags bs).take k = forgetFlags (bs.take k) := by
    intro k
    unfold forgetFlags
    rw [List.map_take]
  constructor
  · intro h k e he
    obtain ⟨r, hr⟩ := h k e.forgetFlags (by rw [forgetFlags, List.getElem?_map, he]; rfl)
    rw [htake] at hr
    exact ⟨r, minted_forgetFlags.1 hr⟩
  · intro h k e he
    rw [forgetFlags, List.getElem?_map] at he
    obtain ⟨e', he', rfl⟩ := Option.map_eq_some_iff.1 he
    obtain ⟨r, hr⟩ := h k e' he'
    rw [htake]
    exact ⟨r, minted_forgetFlags.2 hr⟩

theorem MintedChain.of_append {bs bs' : List BlockEntry} (h : MintedChain (bs ++ bs')) :
    MintedChain bs := by
  intro k e he
  have hk : k < bs.length := (List.getElem?_eq_some_iff.1 he).1
  obtain ⟨r, hr⟩ := h k e (by rw [List.getElem?_append_left hk]; exact he)
  rw [List.take_append_of_le_length hk.le] at hr
  exact ⟨r, hr⟩

theorem MintedChain.concat {bs : List BlockEntry} {e : BlockEntry} {r : UInt64}
    (h : MintedChain bs) (he : Minted bs e r) : MintedChain (bs ++ [e]) := by
  intro k e' hk
  by_cases hlt : k < bs.length
  · rw [List.getElem?_append_left hlt] at hk
    rw [List.take_append_of_le_length hlt.le]
    exact h k e' hk
  · have hlen := (List.getElem?_eq_some_iff.1 hk).1
    rw [List.length_append, List.length_singleton] at hlen
    have hkl : k = bs.length := by omega
    rw [hkl, List.getElem?_concat_length] at hk
    cases hk
    rw [hkl, List.take_left']
    · exact ⟨r, he⟩
    · rfl

/-! ## What a push checks -/

/-- The checks on incoming transactions cover their amounts. -/
theorem guaranteed_paysFee (env : Env) : Guaranteed env PaysFee := by
  intro s tx kept h
  unfold checkTxSemantic at h
  simp only [Bool.and_eq_true, decide_eq_true_eq] at h
  obtain ⟨⟨⟨⟨-, hmoney⟩, hlt⟩, -⟩, -⟩ := h
  cases hin : getInputsMoneyAmount tx with
  | none =>
    rw [hin] at hlt
    exact absurd hlt (UInt64.not_lt_zero)
  | some amountIn =>
    rw [hin] at hlt
    exact paysFee_of_amounts hmoney hin hlt

theorem validateMinerTransaction_some {env : Env} {blocks : List BlockEntry} {b : Block}
    {size : Nat} {fee generated reward donation : UInt64}
    (h : validateMinerTransaction env blocks b size fee generated = .ok (some (reward, donation))) :
    getBlockReward (median (Storage.lastBlocksSizes blocks)) size generated
        (getBlockHeight b).toNat = some reward ∧
      reward + fee = getOutsMoneyAmount b.minerTx.toTransactionPrefix := by
  unfold validateMinerTransaction at h
  simp only at h
  split at h
  -- the rest is the same with the donations of the block and with none
  all_goals
    obtain ⟨donations, -, hrest⟩ := bind_eq_ok_except.1 h
    split at hrest
    · cases hrest
    · split at hrest
      · cases hrest
      · next hreward =>
        split at hrest
        · cases hrest
        · split at hrest
          · cases hrest
          · next heq =>
            cases hrest
            exact ⟨hreward, not_not.1 heq⟩

theorem Connected.minted {env : Env} {now : Nat} {bl : Block} {id : Hash} {n n' : Node}
    (c : Connected env now bl id n n') (hn : Sound env PaysFee n) :
    Minted n.chain.mBlocks c.entry c.baseReward := by
  have hff := c.forgetFlags_eq
  have hgen : alreadyGeneratedCoins c.m.chain.mBlocks = alreadyGeneratedCoins n.chain.mBlocks := by
    rw [← alreadyGeneratedCoins_forgetFlags, hff, alreadyGeneratedCoins_forgetFlags]
  have hsizes : Storage.lastBlocksSizes c.m.chain.mBlocks =
      Storage.lastBlocksSizes n.chain.mBlocks := by
    rw [← lastBlocksSizes_forgetFlags, hff, lastBlocksSizes_forgetFlags]
  obtain ⟨hreward, hpaid⟩ := validateMinerTransaction_some c.reward
  obtain ⟨-, -, htaken⟩ := c.txs.pool hn.pool
  have hfee : ∀ t ∈ c.taken, t.fee.toNat = feeTotal t.entry.tx.toTransactionPrefix := by
    intro t ht
    obtain ⟨i, o, hio, hf⟩ := (htaken t ht).fee
    have hf : t.fee = i - o := hf
    rw [hf]
    exact (htaken t ht).good.toNat_fee hio
  have hfees : blockFees c.entry = (c.taken.map fun t => t.fee.toNat).sum := by
    unfold blockFees
    rw [c.entry_transactions, List.tail_cons, List.map_map]
    exact congrArg List.sum (List.map_congr_left fun t ht => (hfee t ht).symm)
  refine ⟨?_, ⟨c.coinbase, ?_, ?_, ?_⟩, ?_, ?_⟩
  · rw [hsizes, hgen] at hreward
    exact hreward
  · rw [c.entry_transactions]
    rfl
  · rw [c.coinbase_tx]
    exact c.isCoinbase_minerTx
  · -- the coinbase's outputs were checked not to overflow
    have hov : checkOutsOverflow bl.minerTx.toTransactionPrefix = true := by
      have hform := c.form
      unfold checkBlockForm prevalidateMinerTransaction at hform
      rw [Bool.and_eq_true] at hform
      have hpre := hform.2
      split at hpre
      · rw [Bool.and_eq_true] at hpre
        exact hpre.2
      · cases hpre
    rw [c.coinbase_tx, ← toNat_getOutsMoneyAmount hov, ← hpaid, UInt64.toNat_add, hfees, feeSummary,
      toNat_foldl_add_mod TakenTx.fee]
    show (_ + (0 + _) % _) % _ = _
    omega
  · intro t ht
    rw [c.entry_transactions, List.tail_cons] at ht
    obtain ⟨t', ht', rfl⟩ := List.mem_map.1 ht
    exact (htaken t' ht').good
  · rw [← hgen]
    rfl

/-- Every chain is minted, in every run. -/
theorem mintedChain_invariant (env : Env) : BlocksInvariant env PaysFee MintedChain := by
  refine ⟨fun bs bs' hb h => ?_, fun c hn h => ?_, fun bs e _ h => h.of_append⟩
  · rw [← mintedChain_forgetFlags, hb, mintedChain_forgetFlags]
    exact h
  · rename_i n n'
    have hbase : MintedChain n.chain.mBlocks := by
      rcases h with h | h
      · rw [h]
        intro k e he
        cases he
      · exact h
    rw [← mintedChain_forgetFlags, forgetFlags_append, c.forgetFlags_eq, ← forgetFlags_append,
      mintedChain_forgetFlags]
    exact hbase.concat (c.minted hn)

/-! ## The whole chain -/

/-- The base reward of the block at `k`. -/
def rewardAt (blocks : List BlockEntry) (k : Nat) : Nat :=
  (blocks[k]?.bind (blockReward (blocks.take k))).elim 0 UInt64.toNat

/-- Fees and reward of every block fit in 64 bits together. -/
def FeesFit (blocks : List BlockEntry) : Prop :=
  ∀ (k : Nat) e, blocks[k]? = some e → rewardAt blocks k + blockFees e < 2 ^ 64

/-- What the transactions of the chain create and spend. -/
def blockCreated (e : BlockEntry) : Nat :=
  (e.transactions.map fun t => outsTotal t.tx.toTransactionPrefix).sum
def blockSpent (e : BlockEntry) : Nat :=
  (e.transactions.map fun t => inputsTotal t.tx.toTransactionPrefix).sum
def totalCreated (blocks : List BlockEntry) : Nat := (blocks.map blockCreated).sum
def totalSpent (blocks : List BlockEntry) : Nat := (blocks.map blockSpent).sum

/-- The block pays its coinbase the reward and the fees, and each of its
transactions pays a fee. -/
def Balanced (reward : Nat) (e : BlockEntry) : Prop :=
  ∃ cb rest, e.transactions = cb :: rest ∧ isCoinbase cb.tx.toTransactionPrefix = true ∧
    (∀ t ∈ rest, outsTotal t.tx.toTransactionPrefix < inputsTotal t.tx.toTransactionPrefix) ∧
    outsTotal cb.tx.toTransactionPrefix = reward + (rest.map fun t =>
      inputsTotal t.tx.toTransactionPrefix - outsTotal t.tx.toTransactionPrefix).sum

theorem rewardAt_eq {blocks : List BlockEntry} {k : Nat} {e : BlockEntry} {r : UInt64}
    (he : blocks[k]? = some e) (h : Minted (blocks.take k) e r) : rewardAt blocks k = r.toNat := by
  unfold rewardAt
  rw [he, Option.bind_some, h.base]
  rfl

theorem rewardAt_append {bs bs' : List BlockEntry} {k : Nat} (hk : k < bs.length) :
    rewardAt (bs ++ bs') k = rewardAt bs k := by
  unfold rewardAt
  rw [List.getElem?_append_left hk, List.take_append_of_le_length hk.le]

theorem FeesFit.of_append {bs bs' : List BlockEntry} (h : FeesFit (bs ++ bs')) : FeesFit bs := by
  intro k e he
  have hk : k < bs.length := (List.getElem?_eq_some_iff.1 he).1
  have := h k e (by rw [List.getElem?_append_left hk]; exact he)
  rwa [rewardAt_append hk] at this

/-- Where fees and reward fit, the coinbase gets exactly both. -/
theorem Minted.balanced {pre : List BlockEntry} {e : BlockEntry} {r : UInt64} (h : Minted pre e r)
    (hfit : r.toNat + blockFees e < 2 ^ 64) : Balanced r.toNat e := by
  obtain ⟨cb, hcb, hc, ho⟩ := h.coinbase
  rw [Nat.mod_eq_of_lt hfit] at ho
  refine ⟨cb, e.transactions.tail, List.eq_cons_of_mem_head? hcb, hc, fun t ht => ?_, ho⟩
  exact (h.fees t ht).positive

/-- A balanced block creates its reward. -/
theorem Balanced.created {reward : Nat} {e : BlockEntry} (h : Balanced reward e) :
    blockCreated e = blockSpent e + reward := by
  obtain ⟨cb, rest, htxs, hc, hpos, hcb⟩ := h
  have hgen : inputsTotal cb.tx.toTransactionPrefix = 0 := by
    unfold isCoinbase at hc
    unfold inputsTotal
    split at hc
    · next g hv => rw [hv]; rfl
    · cases hc
  have hrest : (rest.map fun t => outsTotal t.tx.toTransactionPrefix).sum +
      (rest.map fun t => inputsTotal t.tx.toTransactionPrefix - outsTotal t.tx.toTransactionPrefix).sum =
      (rest.map fun t => inputsTotal t.tx.toTransactionPrefix).sum := by
    clear htxs hcb
    induction rest with
    | nil => rfl
    | cons t rest ih =>
      have := hpos t List.mem_cons_self
      have := ih fun t' ht' => hpos t' (List.mem_cons_of_mem _ ht')
      simp only [List.map_cons, List.sum_cons]
      omega
  unfold blockCreated blockSpent
  rw [htxs]
  simp only [List.map_cons, List.sum_cons]
  omega

/-- A block adds its reward to the coins in circulation; no word size is
reached. -/
theorem Minted.toNat_generated {pre : List BlockEntry} {e : BlockEntry} {r : UInt64}
    (h : Minted pre e r) :
    e.alreadyGeneratedCoins.toNat = (alreadyGeneratedCoins pre).toNat + r.toNat ∧
      e.alreadyGeneratedCoins.toNat ≤ emissionSupply.toNat := by
  obtain ⟨heq, hle⟩ := toNat_add_reward h.base
  rw [h.generated, heq]
  exact ⟨rfl, hle⟩

theorem alreadyGeneratedCoins_take {bs : List BlockEntry} {k : Nat} {e : BlockEntry}
    (he : bs[k]? = some e) : alreadyGeneratedCoins (bs.take (k + 1)) = e.alreadyGeneratedCoins := by
  unfold alreadyGeneratedCoins
  rw [List.take_add_one, he]
  show Option.elim (List.getLast? (bs.take k ++ [e])) _ _ = _
  rw [List.getLast?_concat]
  rfl

/-- The coins in circulation are the rewards so far. -/
theorem MintedChain.generated_eq_sum {bs : List BlockEntry} (h : MintedChain bs) {k : Nat}
    (hk : k ≤ bs.length) :
    (alreadyGeneratedCoins (bs.take k)).toNat = ((List.range k).map (rewardAt bs)).sum := by
  induction k with
  | zero => rfl
  | succ k ih =>
    have he : bs[k]? = some bs[k] := List.getElem?_eq_getElem hk
    obtain ⟨r, hr⟩ := h k _ he
    rw [alreadyGeneratedCoins_take he, hr.toNat_generated.1, ih (by omega), List.range_succ,
      List.map_append, List.sum_append, List.map_singleton, List.sum_singleton, rewardAt_eq he hr]

/-- What the chain creates beyond what it spends is in circulation. -/
theorem MintedChain.created_eq {bs : List BlockEntry} (h : MintedChain bs) (hfit : FeesFit bs) :
    totalCreated bs = totalSpent bs + (alreadyGeneratedCoins bs).toNat := by
  induction bs using List.reverseRecOn with
  | nil => rfl
  | append_singleton pre e ih =>
    have he : (pre ++ [e])[pre.length]? = some e := List.getElem?_concat_length
    obtain ⟨r, hr⟩ := h pre.length e he
    have hlast := hfit pre.length e he
    rw [rewardAt_eq he hr] at hlast
    have hgen : alreadyGeneratedCoins (pre ++ [e]) = e.alreadyGeneratedCoins := by
      unfold alreadyGeneratedCoins
      rw [List.getLast?_concat]
      rfl
    rw [List.take_left' rfl] at hr
    have hblock := (hr.balanced hlast).created
    have hpre := ih h.of_append hfit.of_append
    have hsum := hr.toNat_generated.1
    unfold totalCreated totalSpent at hpre ⊢
    rw [hgen, List.map_append, List.map_append, List.sum_append, List.sum_append,
      List.map_singleton, List.map_singleton, List.sum_singleton, List.sum_singleton]
    omega

/-- **Coins are conserved.** In every run, as long as the fees and the reward
of each block fit in 64 bits together: every block pays out its base reward and
its fees, `already_generated_coins` is the sum of the rewards and stays within
the supply, and what the chain created beyond what it spent is in
circulation. -/
theorem coins_conserved {env : Env} {n : Node} (hn : Reachable env n)
    (hfit : FeesFit n.chain.mBlocks) :
    (∀ (k : Nat) e, n.chain.mBlocks[k]? = some e →
      (∃ r, blockReward (n.chain.mBlocks.take k) e = some r ∧
        rewardAt n.chain.mBlocks k = r.toNat) ∧
      Balanced (rewardAt n.chain.mBlocks k) e ∧
      e.alreadyGeneratedCoins.toNat = ((List.range (k + 1)).map (rewardAt n.chain.mBlocks)).sum ∧
      e.alreadyGeneratedCoins.toNat ≤ emissionSupply.toNat) ∧
    totalCreated n.chain.mBlocks =
      totalSpent n.chain.mBlocks + (alreadyGeneratedCoins n.chain.mBlocks).toNat := by
  have hchain : MintedChain n.chain.mBlocks :=
    ((mintedChain_invariant env).of_reachable (guaranteed_paysFee env).admitted hn).2
  refine ⟨fun k e he => ?_, hchain.created_eq hfit⟩
  obtain ⟨r, hr⟩ := hchain k e he
  have hr' := rewardAt_eq he hr
  have hk : k < n.chain.mBlocks.length := (List.getElem?_eq_some_iff.1 he).1
  have hlast := hfit k e he
  rw [hr'] at hlast
  refine ⟨⟨r, hr.base, hr'⟩, hr' ▸ hr.balanced hlast, ?_, hr.toNat_generated.2⟩
  rw [← alreadyGeneratedCoins_take he]
  exact hchain.generated_eq_sum hk

/-- Two blocks on top of genesis. -/
def Devnet.twoBlocks : List Event := [.newBlock (mainBlock 1), .newBlock (mainBlock 2)]

theorem coins_conserved_devnet :
    (Devnet.node ∅ Devnet.twoBlocks).chain.mBlocks.length = 3 ∧
      totalCreated (Devnet.node ∅ Devnet.twoBlocks).chain.mBlocks =
        totalSpent (Devnet.node ∅ Devnet.twoBlocks).chain.mBlocks +
          (alreadyGeneratedCoins (Devnet.node ∅ Devnet.twoBlocks).chain.mBlocks).toNat := by
  have eval : (Devnet.run ∅ Devnet.twoBlocks).isSome = true ∧
      (Devnet.node ∅ Devnet.twoBlocks).chain.mBlocks.length = 3 ∧
      ∀ k < 3, ∀ e ∈ (Devnet.node ∅ Devnet.twoBlocks).chain.mBlocks[k]?,
        rewardAt (Devnet.node ∅ Devnet.twoBlocks).chain.mBlocks k + blockFees e < 2 ^ 64 := by
    decide +kernel
  obtain ⟨hrun, hlen, hfit⟩ := eval
  refine ⟨hlen, (coins_conserved (Devnet.reachable_node ∅ _ hrun) fun k e he => ?_).2⟩
  exact hfit k (hlen ▸ (List.getElem?_eq_some_iff.1 he).1) e he

end DarknetSpace
