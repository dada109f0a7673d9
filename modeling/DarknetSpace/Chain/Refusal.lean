import DarknetSpace.Core.Core
import DarknetSpace.Chain.Alias
import DarknetSpace.Chain.Unpushed

/-!
# What a refused block leaves behind

A block that `handle_block_to_main_chain` does not add should leave the chain
and the pool as they were. It does so exactly when it is refused before its
coinbase is recorded, by a check on the header or by the coinbase itself: from
the coinbase on, a refusal ends in the exception of `Unpushed.lean`, with the
coinbase (and every transaction recorded after it) left in the indexes.

The coinbase's own refusals are not all clean either. Looking up an alias name
nobody has used creates an empty history for it; and an alias that is put and
taken back again forgets which alias its address had before.
-/

namespace DarknetSpace

open StateExn

/-- Putting `ai` and popping it again restores the alias maps: its name had an
entry already, and the address-to-alias map had nothing but the name's own
entry to lose. -/
def AliasRoundTrips (s : Storage) (ai : AliasInfo) : Prop :=
  s.mAliases.contains ai.mAlias ∧
    match (aliasHistory s ai.mAlias).getLast? with
    | none => s.mAddrToAlias[ai.mAddress]? = none
    | some last =>
      s.mAddrToAlias[last.mAddress]? = some ai.mAlias ∧
        (ai.mAddress = last.mAddress ∨ s.mAddrToAlias[ai.mAddress]? = none)

/-! ## The containers a refused block must not change -/

/-- The containers of the chain, as they were. -/
structure SameContainers (s s' : Storage) : Prop where
  blocks : s'.mBlocks = s.mBlocks
  blocksIndex : s'.mBlocksIndex = s.mBlocksIndex
  transactions : s'.mTransactions = s.mTransactions
  spentKeys : s'.mSpentKeys = s.mSpentKeys
  outputs : s'.mOutputs = s.mOutputs
  aliases : s'.mAliases = s.mAliases
  addrToAlias : s'.mAddrToAlias = s.mAddrToAlias
  scratchpad : s'.mScratchpad = s.mScratchpad

theorem SameContainers.refl (s : Storage) : SameContainers s s :=
  ⟨rfl, rfl, rfl, rfl, rfl, rfl, rfl, rfl⟩

/-- When only aliases were written, only aliases can differ. -/
theorem sameContainers_iff_of_withoutAliases {s s' : Storage}
    (h : s'.withoutAliases = s.withoutAliases) :
    SameContainers s s' ↔ s'.mAliases = s.mAliases ∧ s'.mAddrToAlias = s.mAddrToAlias := by
  constructor
  · intro hs
    exact ⟨hs.aliases, hs.addrToAlias⟩
  · rintro ⟨ha, hd⟩
    have hb := congrArg Storage.mBlocks h
    have hi := congrArg Storage.mBlocksIndex h
    have ht := congrArg Storage.mTransactions h
    have hk := congrArg Storage.mSpentKeys h
    have ho := congrArg Storage.mOutputs h
    have hp := congrArg Storage.mScratchpad h
    exact ⟨hb, hi, ht, hk, ho, ha, hd, hp⟩

/-- Every transaction of the pool is in the pool again. -/
def PoolKept (p p' : TxMemoryPool) : Prop := ∀ id, p.haveTx id → p'.haveTx id

theorem sameContainers_putAliasInfo_false {env : Env} {ai : AliasInfo} {s : Storage}
    (hne : ai.mAlias ≠ []) (h : (putAliasInfo env ai s).1 = false) :
    SameContainers s (putAliasInfo env ai s).2 ↔ s.mAliases.contains ai.mAlias := by
  rw [sameContainers_iff_of_withoutAliases (putAliasInfo_withoutAliases env ai s),
    putAliasInfo_false hne h, ← insert_aliasHistory_eq_iff]
  exact ⟨fun h => h.1, fun h => ⟨h, rfl⟩⟩

/-- The address map after an alias was put and popped. -/
theorem addrToAlias_roundTrip_iff (m : Map AccountPublicAddress Blob)
    (a last : AccountPublicAddress) (name : Blob) :
    ((m.erase last).erase a).insert last name = m ↔
      m[last]? = some name ∧ (a = last ∨ m[a]? = none) := by
  constructor
  · intro h
    refine ⟨by rw [← h]; simp, ?_⟩
    by_cases hal : a = last
    · exact .inl hal
    · right
      rw [← h, Std.ExtTreeMap.getElem?_insert, if_neg, Std.ExtTreeMap.getElem?_erase_self]
      intro hc
      exact hal (Std.LawfulEqCmp.eq_of_compare hc).symm
  · rintro ⟨hl, ha⟩
    apply Std.ExtTreeMap.ext_getElem?
    intro k
    rw [Std.ExtTreeMap.getElem?_insert]
    split
    · next hc => rw [← Std.LawfulEqCmp.eq_of_compare hc, hl]
    · next hkl =>
      rw [Std.ExtTreeMap.getElem?_erase]
      split
      · next hc =>
        rw [← Std.LawfulEqCmp.eq_of_compare hc]
        rcases ha with rfl | ha
        · exact absurd hc hkl
        · exact ha.symm
      · rw [Std.ExtTreeMap.getElem?_erase, if_neg hkl]

theorem sameContainers_roundTrip {env : Env} {ai : AliasInfo} {s : Storage}
    (h : (putAliasInfo env ai s).1 = true) :
    SameContainers s (popAliasInfo ai (putAliasInfo env ai s).2).2 ↔ AliasRoundTrips s ai := by
  rw [sameContainers_iff_of_withoutAliases
      ((popAliasInfo_withoutAliases ai _).trans (putAliasInfo_withoutAliases env ai s)),
    popAliasInfo_putAliasInfo h]
  unfold AliasRoundTrips
  simp only [insert_aliasHistory_eq_iff]
  refine and_congr_right fun _ => ?_
  cases (aliasHistory s ai.mAlias).getLast? with
  | none =>
    constructor
    · intro he
      rw [← he]
      simp
    · intro he
      apply Std.ExtTreeMap.ext_getElem?
      intro k
      simp only [Option.elim_none]
      rw [Std.ExtTreeMap.getElem?_erase]
      split
      · next hc => rw [← Std.LawfulEqCmp.eq_of_compare hc, he]
      · rfl
  | some last => exact addrToAlias_roundTrip_iff ..

/-! ## Where a block may be refused without a trace -/

/-- The coinbase is refused and leaves the alias maps as they were: its extra
field does not parse, or its alias is refused for a name that has an entry, or
its id is taken and putting its alias and popping it again loses nothing. -/
def CoinbaseRefused (env : Env) (s : Storage) (bl : Block) : Prop :=
  match parseAndValidateTxExtra env bl.minerTx.toTransactionPrefix with
  | .ok (true, ei) =>
    if ei.mAlias.mAlias = [] then s.haveTx (getTransactionHash env bl.minerTx) = true
    else if (putAliasInfo env ei.mAlias s).1 = true then
      s.haveTx (getTransactionHash env bl.minerTx) = true ∧ AliasRoundTrips s ei.mAlias
    else s.mAliases.contains ei.mAlias.mAlias = true
  | _ => True

/-- The block is refused before anything of it is recorded. -/
def RefusedBeforeRecording (env : Env) (now : Nat) (s : Storage) (bl : Block) (id : Hash) : Prop :=
  (checkBlockHeader env now s bl).isSome ∨
    checkBlockForm (s.setCheckpointZone s.mBlocks.length) bl id s.mBlocks.length = false ∨
    CoinbaseRefused env (s.setCheckpointZone s.mBlocks.length) bl

/-- The call did not add the block: it returned `false` or left by an
exception. -/
def NotAdded : EStateM.Result Exn Node BlockVerdict → Prop
  | .ok v _ => v.1 = false
  | .error _ _ => True

instance : DecidablePred NotAdded
  | .ok v _ => inferInstanceAs (Decidable (v.1 = false))
  | .error _ _ => .isTrue trivial

theorem prevalidate_vin {bl : Block} {height : Nat}
    (h : prevalidateMinerTransaction bl height = true) : ∃ g, bl.minerTx.vin = [.gen g] := by
  unfold prevalidateMinerTransaction at h
  split at h
  · next g hv => exact ⟨g, hv⟩
  · cases h

/-- A coinbase transaction, as `add_transaction_from_block` treats it. -/
theorem addTransactionFromBlock_coinbase {env : Env} {tx : Transaction} {id : Hash} {h : Nat}
    {i : UInt16} {g : UInt64} (hvin : tx.vin = [.gen g]) (s : Storage) :
    addTransactionFromBlock env tx id h i s =
      match processBlockchainTxExtra env tx s with
      | .error e s' => .error e s'
      | .ok false s' => .ok none s'
      | .ok true sa =>
        if sa.mTransactions.contains id then
          match unprocessBlockchainTxExtra env tx sa with
          | .error e s' => .error e s'
          | .ok _ s' => .ok none s'
        else .ok (some (recordedEntry tx ⟨h, i⟩ sa.mOutputs)) (recordTx tx id ⟨h, i⟩ sa) := by
  unfold addTransactionFromBlock
  cases hp : processBlockchainTxExtra env tx s with
  | error e s' => exact bind_of_error hp
  | ok r sa =>
    rw [bind_of_ok hp]
    cases r with
    | false => rfl
    | true =>
      have hin : addTransactionInputs env tx.vin sa = .ok true sa := by rw [hvin]; rfl
      rw [if_pos rfl, bind_of_ok hin, if_pos rfl, bind_of_ok (get_apply sa)]
      simp only
      split
      · next hmem =>
        have hpurge : purgeTransactionKeyimagesFromBlockchain env tx true sa = .ok true sa := by
          rw [purgeTransactionKeyimagesFromBlockchain, hvin]; rfl
        rw [bind_of_ok hpurge, bind_apply]
        cases unprocessBlockchainTxExtra env tx sa <;> rfl
      · simp only [pushTransactionToGlobalOutsIndex_insert]
        simp only [recordTx, hvin]
        rfl

/-- A coinbase that is not recorded leaves no trace exactly when it is refused
in one of the clean ways. -/
theorem sameContainers_coinbase_iff (env : Env) {bl : Block} {g : UInt64} (s : Storage) (h : Nat)
    (i : UInt16) (hvin : bl.minerTx.vin = [.gen g])
    (hnot : ∀ txe s', addTransactionFromBlock env bl.minerTx
      (getTransactionHash env bl.minerTx) h i s ≠ .ok (some txe) s') :
    SameContainers s (stateOf (addTransactionFromBlock env bl.minerTx
      (getTransactionHash env bl.minerTx) h i s)) ↔ CoinbaseRefused env s bl := by
  have hcb : isCoinbase bl.minerTx.toTransactionPrefix = true := by rw [isCoinbase, hvin]
  rw [addTransactionFromBlock_coinbase hvin] at hnot ⊢
  unfold processBlockchainTxExtra at hnot ⊢
  unfold CoinbaseRefused
  cases hp : parseAndValidateTxExtra env bl.minerTx.toTransactionPrefix with
  | error e => simp [SameContainers.refl]
  | ok r =>
    obtain ⟨valid, ei⟩ := r
    cases valid with
    | false => simp [SameContainers.refl]
    | true =>
      simp only [hp] at hnot ⊢
      by_cases hempty : ei.mAlias.mAlias = []
      · -- no alias: only the id can be the reason, and nothing is written
        simp only [if_pos hempty] at hnot ⊢
        by_cases hid : s.mTransactions.contains (getTransactionHash env bl.minerTx) = true
        · simp [hid, unprocessBlockchainTxExtra, hcb, hp, hempty, Storage.haveTx, SameContainers.refl]
        · rw [if_neg hid] at hnot
          exact absurd rfl (hnot _ _)
      · simp only [if_neg hempty] at hnot ⊢
        have hids : (putAliasInfo env ei.mAlias s).2.mTransactions = s.mTransactions := by
          have := congrArg Storage.mTransactions (putAliasInfo_withoutAliases env ei.mAlias s)
          exact this
        cases hput : (putAliasInfo env ei.mAlias s).1 with
        | false =>
          simp only [stateOf_ok, Bool.false_eq_true, if_false]
          exact sameContainers_putAliasInfo_false hempty hput
        | true =>
          simp only [hput, hids, if_true] at hnot ⊢
          by_cases hid : s.mTransactions.contains (getTransactionHash env bl.minerTx) = true
          · simp only [hid, if_true, unprocessBlockchainTxExtra, hcb, hp, hempty, if_false,
              Storage.haveTx, true_and, stateOf_ok]
            exact sameContainers_roundTrip hput
          · rw [if_neg hid] at hnot
            exact absurd rfl (hnot _ _)

/-- A recorded coinbase was not refused. -/
theorem TxRecorded.not_coinbaseRefused {env : Env} {bl : Block} {idx : TransactionIndex}
    {s sa s' : Storage} {txe : TransactionEntry}
    (h : TxRecorded env bl.minerTx (getTransactionHash env bl.minerTx) idx s sa s' txe) :
    ¬ CoinbaseRefused env s bl := by
  have hid : s.haveTx (getTransactionHash env bl.minerTx) = false := by
    rw [Storage.haveTx, Std.ExtTreeMap.contains_eq_isSome_getElem?, h.fresh]
    rfl
  have hex := h.extra
  unfold processBlockchainTxExtra at hex
  unfold CoinbaseRefused
  split at hex
  · cases hex
  · cases hex
  · next ei hp =>
    simp only [hp, hid, Bool.false_eq_true, false_and]
    split at hex
    · next hempty => simp [hempty]
    · next hempty =>
      have hput : (putAliasInfo env ei.mAlias s).1 = true := by
        cases hq : (putAliasInfo env ei.mAlias s).1 with
        | true => rfl
        | false => rw [hq] at hex; cases hex
      simp [hempty, hput]

/-- An abandoned block cannot have left every container alone: its coinbase is
new to the transaction index. -/
theorem Abandoned.not_sameContainers {env : Env} {bl : Block} {s s' : Storage}
    (h : Abandoned env bl s s') (hfresh : s.mTransactions[getTransactionHash env bl.minerTx]? = none) :
    ¬ SameContainers s s' := by
  intro hsame
  rcases h.trace with hid | hlen
  · rw [hsame.transactions, Std.ExtTreeMap.contains_eq_isSome_getElem?, hfresh] at hid
    cases hid
  · rw [hsame.blocks] at hlen
    omega

theorem connectBlock_unchanged_iff {env : Env} {now : Nat} {bl : Block} {id : Hash} {n : Node}
    {g : UInt64} (hvin : bl.minerTx.vin = [.gen g]) (h : NotAdded (connectBlock env now bl id n)) :
    (SameContainers n.chain (stateOf (connectBlock env now bl id n)).chain ∧
      PoolKept n.pool (stateOf (connectBlock env now bl id n)).pool) ↔
      CoinbaseRefused env n.chain bl := by
  obtain ⟨txe, s', sa, hadd, hrec, hway⟩ | ⟨s', hadd, hway⟩ | ⟨e, s', hadd, hway⟩ :=
    connectBlock_cases env now bl id n
  · obtain ⟨n', hway, -⟩ | ⟨e, n', hway, hab⟩ := hway
    · rw [hway] at h
      cases h
    · rw [hway]
      exact ⟨fun hs => absurd hs.1 (hab.not_sameContainers hrec.fresh),
        fun hr => absurd hr hrec.not_coinbaseRefused⟩
  · have key := sameContainers_coinbase_iff env n.chain n.chain.mBlocks.length 0 hvin
      (by rw [hadd]; intro _ _ hc; cases hc)
    rw [hadd] at key
    rw [hway, ← key]
    exact ⟨fun hs => hs.1, fun hs => ⟨hs, fun _ hid => hid⟩⟩
  · have key := sameContainers_coinbase_iff env n.chain n.chain.mBlocks.length 0 hvin
      (by rw [hadd]; intro _ _ hc; cases hc)
    rw [hadd] at key
    rw [hway, ← key]
    exact ⟨fun hs => hs.1, fun hs => ⟨hs, fun _ hid => hid⟩⟩

theorem sameContainers_setCheckpointZone {s s' : Storage} {h : Nat} :
    SameContainers (s.setCheckpointZone h) s' ↔ SameContainers s s' :=
  ⟨fun hs => ⟨hs.1, hs.2, hs.3, hs.4, hs.5, hs.6, hs.7, hs.8⟩,
    fun hs => ⟨hs.1, hs.2, hs.3, hs.4, hs.5, hs.6, hs.7, hs.8⟩⟩

/-- **A refused block.** When `handle_block_to_main_chain` does not add a
block, the containers of the chain are as they were and every pool transaction
is back in the pool, if and only if the block was refused before its coinbase
was recorded. -/
theorem refused_block_changes_nothing_iff (env : Env) (now : Nat) (bl : Block) (id : Hash)
    (n : Node) (h : NotAdded (handleBlockToMainChain env now bl id n)) :
    (SameContainers n.chain (stateOf (handleBlockToMainChain env now bl id n)).chain ∧
      PoolKept n.pool (stateOf (handleBlockToMainChain env now bl id n)).pool) ↔
      RefusedBeforeRecording env now n.chain bl id := by
  unfold RefusedBeforeRecording
  unfold handleBlockToMainChain at h ⊢
  rw [bind_of_ok (get_apply n)] at h ⊢
  cases hhead : checkBlockHeader env now n.chain bl with
  | some v => simp [SameContainers.refl, PoolKept]
  | none =>
    simp only [hhead] at h ⊢
    rw [bind_of_ok (onChain_modify _ n), bind_of_ok (get_apply _)] at h ⊢
    simp only at h ⊢
    split at h
    · next hform =>
      rw [if_pos hform]
      obtain ⟨g, hvin⟩ : ∃ g, bl.minerTx.vin = [.gen g] := by
        unfold checkBlockForm at hform
        exact prevalidate_vin (Bool.and_eq_true_iff.1 hform).2
      have key := connectBlock_unchanged_iff hvin h
      rw [sameContainers_setCheckpointZone] at key
      have hform' : checkBlockForm (n.chain.setCheckpointZone n.chain.mBlocks.length) bl id
          n.chain.mBlocks.length = true := hform
      simp only [Option.isSome_none, Bool.false_eq_true, hform', Bool.true_eq_false, false_or]
      exact key
    · next hform =>
      rw [if_neg hform]
      have hform' : checkBlockForm (n.chain.setCheckpointZone n.chain.mBlocks.length) bl id
          n.chain.mBlocks.length = false := Bool.eq_false_iff.2 hform
      simp only [pure_apply, stateOf_ok]
      exact ⟨fun _ => .inr (.inl hform'), fun _ =>
        ⟨sameContainers_setCheckpointZone.1 (.refl _), fun _ hid => hid⟩⟩

namespace Devnet
/-- A block at height 1 that lists a transaction nobody has. -/
def blockOfUnknownTx : Block := block 1 1 0 (coinbase 1 1 0 []) [99]

end Devnet

/-- One block after genesis, with a transaction that is not in the pool: the
call throws, and the coinbase stays in `m_transactions`. -/
theorem refused_block_leaves_coinbase :
    ∃ n, Reachable Devnet.env n ∧
      NotAdded (handleBlockToMainChain Devnet.env Devnet.now Devnet.blockOfUnknownTx 2 n) ∧
      ¬ (SameContainers n.chain (stateOf (handleBlockToMainChain Devnet.env Devnet.now
          Devnet.blockOfUnknownTx 2 n)).chain ∧
        PoolKept n.pool (stateOf (handleBlockToMainChain Devnet.env Devnet.now
          Devnet.blockOfUnknownTx 2 n)).pool) := by
  refine ⟨_, Devnet.reachable_node ∅ [] (by decide +kernel),
    by decide +kernel, fun h => ?_⟩
  have hid := congrArg (·.contains (getTransactionHash Devnet.env Devnet.blockOfUnknownTx.minerTx))
    h.1.transactions
  revert hid
  decide +kernel

namespace Devnet

/-- A block with the transaction of the pool, on the block below the top. -/
def orphanBlock : Block := block 60 60 58 (coinbase 60 1 fee []) [spendId 9]

end Devnet

/-- A block that does not extend the top block is refused without a trace. -/
theorem refused_block_changes_nothing_iff_orphan :
    ∃ n, Reachable Devnet.env n ∧ n.chain.mBlocks.length = 60 ∧
      n.pool.haveTx (Devnet.spendId 9) = true ∧
      NotAdded (handleBlockToMainChain Devnet.env Devnet.now Devnet.orphanBlock 61 n) ∧
      SameContainers n.chain (stateOf (handleBlockToMainChain Devnet.env Devnet.now
        Devnet.orphanBlock 61 n)).chain ∧
      PoolKept n.pool (stateOf (handleBlockToMainChain Devnet.env Devnet.now
        Devnet.orphanBlock 61 n)).pool := by
  have eval : (Devnet.run ∅ Devnet.pooledLine).isSome = true ∧
      (Devnet.node ∅ Devnet.pooledLine).chain.mBlocks.length = 60 ∧
      (Devnet.node ∅ Devnet.pooledLine).pool.haveTx (Devnet.spendId 9) = true ∧
      decide (NotAdded (handleBlockToMainChain Devnet.env Devnet.now Devnet.orphanBlock 61
        (Devnet.node ∅ Devnet.pooledLine))) = true ∧
      (checkBlockHeader Devnet.env Devnet.now (Devnet.node ∅ Devnet.pooledLine).chain
        Devnet.orphanBlock).isSome = true := by decide +kernel
  obtain ⟨hrun, hlen, hpool, hnot, hhead⟩ := eval
  have hn : Reachable Devnet.env (Devnet.node ∅ Devnet.pooledLine) :=
    Devnet.reachable_node ∅ _ hrun
  clear hrun
  generalize Devnet.node ∅ Devnet.pooledLine = n at *
  exact ⟨n, hn, hlen, hpool, of_decide_eq_true hnot,
    (refused_block_changes_nothing_iff _ _ _ _ n (of_decide_eq_true hnot)).2 (.inl hhead)⟩

end DarknetSpace
