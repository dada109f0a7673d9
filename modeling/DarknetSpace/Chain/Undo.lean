import DarknetSpace.Chain.Alias
import DarknetSpace.Chain.Later
import DarknetSpace.Chain.Unpushed

/-!
# Taking recorded transactions out again

`purge_transaction_from_blockchain` on a transaction whose block *is* in
`m_blocks`. Key images, output index and transaction index come back exactly,
and the transaction goes back to the pool; the flags of its direct spends are
cleared, whatever they were before; of the alias histories only a coinbase's
last entry is taken. A whole block comes out transaction by transaction, last
first, so that each purge finds the indexes as its own recording left them.

`SameLedger` is what comes back, and `Purgeable` what a purge needs: the block is there,
and the indexes resolve what the transaction refers to, which they did when it was
recorded (`Later`). The result is `purgeTransaction_recorded`, one transaction against
its own recording.
-/

namespace DarknetSpace

open StateExn

/-! ## Inputs -/

theorem keyImages_toKey_cons (amount : UInt64) (offs : List UInt64) (ki : KeyImage)
    (rest : List Txin) : keyImages (.toKey amount offs ki :: rest) = ki :: keyImages rest := rfl

/-- Where the direct spends resolve and the key images are known, every input
is taken back. -/
theorem purgeTransactionInputs_of_resolves {env : Env} {vin : List Txin} {d : Storage}
    (hk : ∀ k ∈ keyImages vin, k ∈ d.mSpentKeys) (hnd : (keyImages vin).Nodup)
    (hrec : ∀ i ∈ vin, i.Recordable) (hr : ∀ i ∈ vin, DirectResolves env d i) :
    purgeTransactionInputs env true vin d = .ok true
      { d with
        mSpentKeys := (keyImages vin).foldl (fun m k => m.erase k) d.mSpentKeys
        mBlocks := markSpent d.mOutputs false vin d.mBlocks } := by
  induction vin generalizing d with
  | nil => rfl
  | cons i rest ih =>
    have hrec' : ∀ j ∈ rest, j.Recordable := fun j hj => hrec j (List.mem_cons_of_mem _ hj)
    have hr' : ∀ j ∈ rest, DirectResolves env d j := fun j hj => hr j (List.mem_cons_of_mem _ hj)
    cases i with
    | toKey amount offs ki =>
      rw [keyImages_toKey_cons] at hk hnd ⊢
      rw [List.nodup_cons] at hnd
      have hki : d.mSpentKeys.contains ki = true :=
        Std.ExtTreeSet.mem_iff_contains.1 (hk ki List.mem_cons_self)
      have hhead : purgeTransactionInput env true (.toKey amount offs ki) d = .ok true
          { d with
            mSpentKeys := d.mSpentKeys.erase ki
            mBlocks := markInput d.mOutputs false d.mBlocks (.toKey amount offs ki) } := by
        unfold purgeTransactionInput
        simp only [hki, not_true_eq_false, false_and, if_false]
        have hres : DirectResolves env { d with mSpentKeys := d.mSpentKeys.erase ki }
            (.toKey amount offs ki) := hr _ List.mem_cons_self
        exact updateFlagsOfDirectSpend_of_resolves false hres
      generalize hd : ({ d with
        mSpentKeys := d.mSpentKeys.erase ki
        mBlocks := markInput d.mOutputs false d.mBlocks (.toKey amount offs ki) } : Storage) = d₁
        at hhead
      have hd₁ : d.withoutSpends = d₁.withoutSpends := by
        rw [← hd]
        unfold Storage.withoutSpends
        rw [forgetFlags_markInput]
      have step := ih (d := d₁) ?_ hnd.2 hrec' fun j hj => (hr' j hj).of_withoutSpends hd₁
      · unfold purgeTransactionInputs
        rw [bind_of_ok hhead, if_neg (by simp), step, ← hd]
        rfl
      · intro k hk'
        rw [← hd, Std.ExtTreeSet.mem_erase]
        refine ⟨fun hc => hnd.1 ?_, hk k (List.mem_cons_of_mem _ hk')⟩
        rwa [Std.LawfulEqCmp.eq_of_compare hc]
    | gen g => exact ih hk hnd hrec' hr'
    | toScript => exact absurd (hrec _ List.mem_cons_self) (by simp [Txin.Recordable])
    | toScripthash => exact absurd (hrec _ List.mem_cons_self) (by simp [Txin.Recordable])

/-! ## The pool -/

theorem haveTx_insertTx {p : TxMemoryPool} {id : Hash} {txd : TxDetails}
    {tvc : TxVerificationContext} :
    (∀ id', p.haveTx id' → (p.insertTx id txd tvc).2.haveTx id') ∧
      (p.insertTx id txd tvc).2.haveTx id := by
  unfold TxMemoryPool.insertTx
  split
  · next h => exact ⟨fun _ h' => h', h⟩
  · simp only [TxMemoryPool.haveTx, Std.ExtTreeMap.contains_insert]
    exact ⟨fun id' h' => by simp [h'], by simp⟩

/-- A transaction that comes with a block enters the pool when its amounts are
in order, whatever its inputs are; nothing leaves the pool for it. -/
theorem haveTx_addTx_kept {env : Env} {now : Nat} {chain : Storage} {p p' : TxMemoryPool}
    {tx : Transaction} {v : TxMemoryPool.Verdict} (h : p.addTx env now chain tx true [] = .ok (v, p')) :
    (∀ id, p.haveTx id → p'.haveTx id) ∧
      (TxMemoryPool.checkAmounts tx.toTransactionPrefix ≠ none →
        p'.haveTx (getTransactionHash env tx)) := by
  unfold TxMemoryPool.addTx at h
  simp only [not_true_eq_false, false_and, if_false, if_true] at h
  split at h
  · next hc =>
    cases h
    exact ⟨fun _ h => h, fun h => absurd hc h⟩
  · split at h
    · cases h
    · obtain ⟨_, rfl⟩ := Prod.mk.inj (Except.ok.inj h)
      exact ⟨haveTx_insertTx.1, fun _ => haveTx_insertTx.2⟩
    · obtain ⟨_, rfl⟩ := Prod.mk.inj (Except.ok.inj h)
      exact ⟨haveTx_insertTx.1, fun _ => haveTx_insertTx.2⟩

theorem addTx_kept_of_checked {env : Env} {now : Nat} {chain : Storage} {p : TxMemoryPool}
    {tx : Transaction} (h : ∃ r, chain.checkTxInputsWithId env now tx = .ok r) :
    ∃ v p', p.addTx env now chain tx true [] = .ok (v, p') := by
  obtain ⟨r, hr⟩ := h
  unfold TxMemoryPool.addTx
  simp only [not_true_eq_false, false_and, if_false, if_true]
  split
  · exact ⟨_, _, rfl⟩
  · rw [hr]
    cases r with
    | none => exact ⟨_, _, rfl⟩
    | some u => exact ⟨_, _, rfl⟩

/-! ## One transaction -/

/-- The indexes a transaction's recording writes agree. -/
structure SameLedger (s d : Storage) : Prop where
  transactions : d.mTransactions = s.mTransactions
  outputs : d.mOutputs = s.mOutputs
  spentKeys : d.mSpentKeys = s.mSpentKeys

/-- What is needed to take a transaction out that `s` recorded as `s'`. -/
structure Purgeable (env : Env) (tx : Transaction) (txId : Hash) (idx : TransactionIndex)
    (s s' d : Storage) : Prop where
  ledger : SameLedger s' d
  blocks : forgetFlags s.mBlocks <+: forgetFlags d.mBlocks
  read : ∃ txe, d.transactionByIndex idx = .ok txe ∧ txe.tx = tx
  id : getTransactionHash env tx = txId
  noEmpty : NoEmptyOuts s.mOutputs
  outs : tx.vout.length ≤ 65536
  /-- An ordinary transaction was checked when it was recorded. -/
  checked : isCoinbase tx.toTransactionPrefix = true ∨
    ∃ now used, s.checkTxInputs env now tx = .ok (some used)
  /-- A coinbase finds an alias to take back. -/
  aliases : isCoinbase tx.toTransactionPrefix = true →
    ∀ ai, txAlias env tx.toTransactionPrefix = some ai → aliasHistory d ai.mAlias ≠ []

/-- The storage after the key images and flags of a transaction are taken
back. -/
def unspent (tx : Transaction) (s d : Storage) : Storage :=
  { d with
    mSpentKeys := s.mSpentKeys
    mBlocks := markSpent s.mOutputs false tx.vin d.mBlocks }

/-- The alias histories after a transaction is taken out. -/
def unaliased (env : Env) (tx : Transaction) (d : Storage) : Storage :=
  if isCoinbase tx.toTransactionPrefix then
    (txAlias env tx.toTransactionPrefix).elim d fun ai => (popAliasInfo ai d).2
  else d

theorem unaliased_withoutAliases (env : Env) (tx : Transaction) (d : Storage) :
    (unaliased env tx d).withoutAliases = d.withoutAliases := by
  unfold unaliased
  split
  · cases txAlias env tx.toTransactionPrefix with
    | none => rfl
    | some ai => exact popAliasInfo_withoutAliases ai d
  · rfl

/-- The storage after a transaction is taken out. -/
def purged (env : Env) (tx : Transaction) (s d : Storage) : Storage :=
  { unaliased env tx (unspent tx s d) with
    mTransactions := s.mTransactions
    mOutputs := s.mOutputs }

section

variable {env : Env} {tx : Transaction} {txId : Hash} {idx : TransactionIndex}
  {s sa s' d : Storage} {txe : TransactionEntry}

theorem TxRecorded.outputs (h : TxRecorded env tx txId idx s sa s' txe) :
    s'.mOutputs = (pushOutputs idx 0 tx.vout s.mOutputs).1 := by
  have ha : sa.mOutputs = s.mOutputs := by
    have := congrArg Storage.mOutputs (processBlockchainTxExtra_frame h.extra); exact this
  rw [h.state, ← ha]
  rfl

theorem TxRecorded.spentKeys (h : TxRecorded env tx txId idx s sa s' txe) :
    s'.mSpentKeys = s.mSpentKeys.insertMany (keyImages tx.vin) := by
  have ha : sa.mSpentKeys = s.mSpentKeys := by
    have := congrArg Storage.mSpentKeys (processBlockchainTxExtra_frame h.extra); exact this
  rw [h.state, ← ha]
  rfl

theorem TxRecorded.blocks (h : TxRecorded env tx txId idx s sa s' txe) :
    s'.mBlocks = markSpent s.mOutputs true tx.vin s.mBlocks := by
  have hb : sa.mBlocks = s.mBlocks := by
    have := congrArg Storage.mBlocks (processBlockchainTxExtra_frame h.extra); exact this
  have ho : sa.mOutputs = s.mOutputs := by
    have := congrArg Storage.mOutputs (processBlockchainTxExtra_frame h.extra); exact this
  rw [h.state, ← ho, ← hb]
  rfl

/-- The key images of a recorded transaction were new and distinct. -/
theorem TxRecorded.keyImages_fresh (h : TxRecorded env tx txId idx s sa s' txe) :
    (keyImages tx.vin).Nodup ∧ ∀ k ∈ keyImages tx.vin, k ∉ s.mSpentKeys := by
  have ha : sa.mSpentKeys = s.mSpentKeys := by
    have := congrArg Storage.mSpentKeys (processBlockchainTxExtra_frame h.extra); exact this
  have hin := addTransactionInputs_true h.inputs
  exact ⟨hin.nodup, ha ▸ hin.fresh⟩

/-- Its direct spends resolved, before its alias was written as well as after. -/
theorem TxRecorded.directResolves (h : TxRecorded env tx txId idx s sa s' txe) :
    ∀ i ∈ tx.vin, DirectResolves env s i := by
  have hf := processBlockchainTxExtra_frame h.extra
  have hb : sa.mBlocks = s.mBlocks := by have := congrArg Storage.mBlocks hf; exact this
  have ho : sa.mOutputs = s.mOutputs := by have := congrArg Storage.mOutputs hf; exact this
  have ht : sa.mTransactions = s.mTransactions := by
    have := congrArg Storage.mTransactions hf; exact this
  have hl : Later 0 sa s :=
    ⟨hb ▸ List.prefix_rfl, by rw [ho]; exact .refl _ _, by rw [ht]; exact fun _ h => h⟩
  intro i hi
  exact hl.directResolves (addTransactionInputs_resolves h.inputs i hi)

/-- The storage a transaction is purged from is later than the one it was
recorded in. -/
theorem Purgeable.later (hp : Purgeable env tx txId idx s s' d)
    (hr : TxRecorded env tx txId idx s sa s' txe) : Later idx.block s d := by
  refine ⟨hp.blocks, ?_, ?_⟩
  · rw [hp.ledger.outputs, hr.outputs]
    exact outputsGrow_pushOutputs idx 0 tx.vout s.mOutputs
  · intro id hid
    rw [hp.ledger.transactions, hr.transactions, Std.ExtTreeMap.contains_insert, hid,
      Bool.or_true]

theorem markSpent_congr {o o' : Map UInt64 AmountOuts} {spent : Bool} {vin : List Txin}
    {bs : List BlockEntry} (h : ∀ i ∈ vin, directTarget o i = directTarget o' i) :
    markSpent o spent vin bs = markSpent o' spent vin bs := by
  induction vin generalizing bs with
  | nil => rfl
  | cons i rest ih =>
    have hi : markInput o spent bs i = markInput o' spent bs i := by
      rw [markInput_eq, markInput_eq, h i List.mem_cons_self]
    show markSpent o spent rest (markInput o spent bs i) = _
    rw [hi]
    exact ih fun j hj => h j (List.mem_cons_of_mem _ hj)

/-- A direct spend that resolves has the same target in a later index. -/
theorem Later.directTarget_eq {h : Nat} (hl : Later h s d) {i : Txin}
    (hr : DirectResolves env s i) : directTarget d.mOutputs i = directTarget s.mOutputs i := by
  cases i with
  | toKey amount offs ki =>
    cases offs with
    | nil => rfl
    | cons g rest =>
      cases rest with
      | nil =>
        obtain ⟨p, _, hp, -⟩ := hr amount g ki rfl
        rw [hp]
        exact hl.outputs.getElem? hp
      | cons g' rest => rfl
  | gen => rfl
  | toScript => rfl
  | toScripthash => rfl

theorem purgeKeyimages_recorded (hp : Purgeable env tx txId idx s s' d)
    (hr : TxRecorded env tx txId idx s sa s' txe) :
    purgeTransactionKeyimagesFromBlockchain env tx true d = .ok true (unspent tx s d) := by
  have hl := hp.later hr
  obtain ⟨hnd, hfresh⟩ := hr.keyImages_fresh
  have hkeys : d.mSpentKeys = s.mSpentKeys.insertMany (keyImages tx.vin) := by
    rw [hp.ledger.spentKeys, hr.spentKeys]
  have hall := purgeTransactionInputs_of_resolves (d := d) ?_ hnd
    (addTransactionInputs_true hr.inputs).recordable
    fun i hi => hl.directResolves (hr.directResolves i hi)
  · unfold purgeTransactionKeyimagesFromBlockchain
    rw [hall, hkeys, FinMap.foldl_erase_insertMany hfresh,
      markSpent_congr fun i hi => hl.directTarget_eq (hr.directResolves i hi)]
    rfl
  · intro k hk
    rw [hkeys, Std.ExtTreeSet.mem_insertMany_list]
    exact .inr (by simpa using hk)

theorem unprocess_recorded (hp : Purgeable env tx txId idx s s' d)
    (hr : TxRecorded env tx txId idx s sa s' txe) :
    unprocessBlockchainTxExtra env tx (unspent tx s d) =
      .ok true (unaliased env tx (unspent tx s d)) := by
  obtain ⟨⟨ei, hparse⟩, -⟩ := processBlockchainTxExtra_true hr.extra
  rw [unprocessBlockchainTxExtra_eq hparse]
  unfold unaliased
  split
  · next hcb =>
    cases hal : txAlias env tx.toTransactionPrefix with
    | none => rfl
    | some ai =>
      have hne : ai.mAlias ≠ [] := txAlias_ne_nil hal
      have hh : aliasHistory (unspent tx s d) ai.mAlias ≠ [] := hp.aliases hcb ai hal
      simp only [Option.elim_some, (aliasHistory_popAliasInfo hne hh []).1]
  · rfl

theorem purged_blocks (env : Env) (tx : Transaction) (s d : Storage) :
    (purged env tx s d).mBlocks = markSpent s.mOutputs false tx.vin d.mBlocks := by
  have := congrArg Storage.mBlocks (unaliased_withoutAliases env tx (unspent tx s d))
  exact this

/-- Taking out a recorded transaction whose block is in the chain. -/
theorem purgeTransaction_recorded (now : Nat) {m : Node}
    (hp : Purgeable env tx txId idx s s' m.chain)
    (hr : TxRecorded env tx txId idx s sa s' txe) :
    ∃ pool, purgeTransactionFromBlockchain env now txId m =
        .ok true { m with chain := purged env tx s m.chain, pool } ∧
      (∀ id, m.pool.haveTx id → pool.haveTx id) ∧
      (isCoinbase tx.toTransactionPrefix = false →
        TxMemoryPool.checkAmounts tx.toTransactionPrefix ≠ none → pool.haveTx txId) := by
  have hl := hp.later hr
  have hidx : m.chain.mTransactions[txId]? = some idx := by
    rw [hp.ledger.transactions, hr.transactions, Std.ExtTreeMap.getElem?_insert_self]
  obtain ⟨txe₁, hread, htx⟩ := hp.read
  generalize hu : unaliased env tx (unspent tx s m.chain) = u
  have huw : u.withoutAliases = (unspent tx s m.chain).withoutAliases := by
    rw [← hu]
    exact unaliased_withoutAliases ..
  have hub : forgetFlags u.mBlocks = forgetFlags m.chain.mBlocks := by
    have := congrArg (fun t : Storage => forgetFlags t.mBlocks) huw
    exact this.trans (forgetFlags_markSpent ..)
  have huo : u.mOutputs = m.chain.mOutputs := by have := congrArg Storage.mOutputs huw; exact this
  have hut : u.mTransactions = m.chain.mTransactions := by
    have := congrArg Storage.mTransactions huw; exact this
  have hlu : Later idx.block s u :=
    ⟨hub ▸ hl.blocks, huo ▸ hl.outputs, hut ▸ hl.transactions⟩
  -- the pool takes the transaction back
  obtain ⟨pool, hpool, hkeep, hback⟩ : ∃ pool,
      returnOrdinaryToPool env now tx { m with chain := u } = .ok ⟨⟩ { m with chain := u, pool } ∧
      (∀ id, m.pool.haveTx id → pool.haveTx id) ∧
      (isCoinbase tx.toTransactionPrefix = false →
        TxMemoryPool.checkAmounts tx.toTransactionPrefix ≠ none → pool.haveTx txId) := by
    unfold returnOrdinaryToPool
    by_cases hcb : isCoinbase tx.toTransactionPrefix = true
    · refine ⟨m.pool, by rw [if_pos hcb]; rfl, fun _ h => h, ?_⟩
      intro hf
      rw [hcb] at hf
      cases hf
    · obtain ⟨now₀, used, hin⟩ := hp.checked.resolve_left hcb
      obtain ⟨v, pool, hadd⟩ := addTx_kept_of_checked (p := m.pool) (hlu.checkTxInputsWithId hin now)
      refine ⟨pool, ?_, (haveTx_addTx_kept hadd).1, fun _ ha => ?_⟩
      · rw [if_neg hcb]
        unfold returnToPool
        simp only [hadd]
      · rw [← hp.id]
        exact (haveTx_addTx_kept hadd).2 ha
  -- and the outputs come off the index
  have hpop : popTransactionFromGlobalIndex env tx txId u =
      .ok true { u with mOutputs := s.mOutputs } := by
    obtain ⟨txe₂, hread₂, hf⟩ := transactionByIndex_of_isPrefix (d := u)
      (hub ▸ List.prefix_rfl) hread
    refine popOutputs_pushOutputs hp.noEmpty hp.outs hread₂ ?_ ?_
    · rw [TransactionEntry.tx_of_forgetFlags hf, htx]
      exact hp.id
    · rw [huo, hp.ledger.outputs, hr.outputs]
  refine ⟨pool, ?_, hkeep, hback⟩
  unfold purgeTransactionFromBlockchain
  rw [bind_of_ok (get_apply m)]
  simp only [hidx]
  rw [bind_of_ok (readChain_of_ok hread), htx,
    bind_of_ok (onChain_of_ok (purgeKeyimages_recorded hp hr)),
    bind_of_ok (onChain_of_ok (n := { m with chain := unspent tx s m.chain })
      (unprocess_recorded hp hr)), if_pos rfl]
  rw [hu, bind_of_ok hpool, bind_of_ok (onChain_of_ok (n := { m with chain := u, pool }) hpop),
    bind_of_ok (modify_apply _ _)]
  have herase : u.mTransactions.erase txId = s.mTransactions := by
    rw [hut, hp.ledger.transactions, hr.transactions]
    exact FinMap.erase_insert_of_not_contains _ hr.fresh
  simp only [herase, pure_apply, purged, hu]

end

end DarknetSpace
