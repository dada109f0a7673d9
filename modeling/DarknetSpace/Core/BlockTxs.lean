import DarknetSpace.Core.PoolImages

/-!
# A block's transactions on their way into the pool

`handle_notify_new_block` passes the transactions of a block to
`handle_incoming_tx` first and drops the block when one of them is refused.
Whether that happens should not depend on what else the pool holds. It does for
one pair: the inputs verify, and another pool transaction has the alias. Where
the inputs do not verify, `add_tx` makes room instead.

`block_tx_taken_in_iff` says of every state of a run and every transaction of a block
whether it gets past the pool. That the answer depends on the aliases the pool holds is
the defect, and the statement says it of the pool as it is found: the transaction of the
pool with the same alias is dropped on the branch that would not have needed it.
-/

namespace DarknetSpace

open StateExn TxMemoryPool

section

variable {env : Env} {now : Nat} {blob : Blob} {tx : Transaction} {ei : TxExtraInfo} {n : Node}

/-- What `core` checks before the pool sees a block's transaction. -/
structure PassesCore (env : Env) (n : Node) (blob : Blob) (tx : Transaction) (ei : TxExtraInfo) :
    Prop where
  size : blob.length ≤ currencyMaxTxSize
  parse : env.parseTx blob = some tx
  semantic : checkTxSemantic env n.chain tx.toTransactionPrefix true = true
  extra : parseAndValidateTxExtra env tx.toTransactionPrefix = .ok (true, ei)

/-- The pool or the chain knows the transaction. -/
def Known (n : Node) (id : Hash) : Prop := n.pool.haveTx id = true ∨ n.chain.haveTx id = true

/-- The call does not fail the transaction, and it ends up in the pool or was
in the chain. -/
def TakesIn (env : Env) (now : Nat) (blob : Blob) (id : Hash) (n : Node) : Prop :=
  ∃ v n', handleIncomingTx env now blob true n = .ok v n' ∧ v.2.mVerifivationFailed = false ∧
    Known n' id

theorem PassesCore.handleIncomingTx_eq (h : PassesCore env n blob tx ei) :
    handleIncomingTx env now blob true n = addNewTx env now tx true ei.mAlias.mAlias n := by
  have hreads : reads (fun _ : Node => parseAndValidateTxExtra env tx.toTransactionPrefix) n =
      .ok (true, ei) n := by
    unfold reads
    rw [h.extra]
  unfold handleIncomingTx
  rw [bind_of_ok (get_apply n), if_neg (Nat.not_lt.2 h.size), h.parse]
  simp only
  rw [if_neg (fun hn => hn h.semantic), bind_of_ok hreads]
  rfl

/-- The amounts were checked already. -/
theorem PassesCore.checkAmounts (h : PassesCore env n blob tx ei) :
    ∃ i o, checkAmounts tx.toTransactionPrefix = some (i, o) := by
  have hsem := h.semantic
  unfold checkTxSemantic at hsem
  simp only [Bool.and_eq_true, decide_eq_true_eq] at hsem
  obtain ⟨⟨⟨⟨⟨⟨-, htypes⟩, -⟩, -⟩, hlt⟩, -⟩, -⟩ := hsem
  cases hin : getInputsMoneyAmount tx.toTransactionPrefix with
  | none =>
    rw [hin] at hlt
    exact absurd hlt UInt64.not_lt_zero
  | some i =>
    rw [hin] at hlt
    have hlt : getOutsMoneyAmount tx.toTransactionPrefix < i := hlt
    refine ⟨i, getOutsMoneyAmount tx.toTransactionPrefix, ?_⟩
    unfold TxMemoryPool.checkAmounts
    rw [if_neg (fun hn => hn htypes), hin]
    simp only
    rw [if_neg (UInt64.not_le.2 hlt)]

/-- Filing a block's transaction that the pool does not have. -/
theorem filed_of_new {p : TxMemoryPool} {id : Hash} (txd : TxDetails) (hp : KeyImagesExact p)
    (hd : DistinctImages txd.tx.toTransactionPrefix) (hkept : txd.keptByBlock = true)
    (hnew : p.mTransactions.contains id = false) (tvc : TxVerificationContext) :
    (p.insertTx id txd tvc).1.2.mVerifivationFailed = false ∧
      (p.insertTx id txd tvc).2.haveTx id = true := by
  obtain ⟨hv, htxs, -, -⟩ := KeyImagesExact.insertTx hp hd hnew
    (fun hk => absurd (hkept.symm.trans hk) Bool.noConfusion) tvc
  refine ⟨by rw [hv], ?_⟩
  unfold TxMemoryPool.haveTx
  rw [htxs]
  exact Std.ExtTreeMap.contains_insert_self

theorem dropAliasRival_new {p : TxMemoryPool} {id : Hash} (name : Blob)
    (hnew : p.mTransactions.contains id = false) :
    (p.dropAliasRival env name).mTransactions.contains id = false := by
  unfold TxMemoryPool.dropAliasRival
  split
  · exact hnew
  · cases ht : p.takeTx env (p.findAlias name) with
    | none => exact hnew
    | some r =>
      show r.2.mTransactions.contains id = false
      rw [(takeTx_transactions ht).2, Std.ExtTreeMap.contains_erase, hnew, Bool.and_false]

/-- The pair is refused for the alias of another transaction only. -/
theorem addAliasTxPair_fst (p : TxMemoryPool) (name : Blob) (id : Hash) :
    (p.addAliasTxPair name id).1 = true ↔ p.findAlias name = nullHash := by
  unfold TxMemoryPool.addAliasTxPair
  by_cases hname : name = []
  · rw [if_pos hname]
    unfold TxMemoryPool.findAlias
    rw [if_pos hname]
    exact ⟨fun _ => rfl, fun _ => rfl⟩
  · rw [if_neg hname]
    by_cases hfree : p.findAlias name = nullHash
    · rw [if_neg (not_not.2 hfree)]
      exact ⟨fun _ => hfree, fun _ => rfl⟩
    · rw [if_pos hfree]
      exact ⟨fun hc => absurd hc Bool.noConfusion, fun hc => absurd hc hfree⟩

end

/-- When a block's transaction gets past the pool: it is known, or its inputs
could be looked up and, where they verify, no pool transaction has its alias. -/
theorem block_tx_taken_in_iff {env : Env} {n : Node} (hn : PoolRun env n) (now : Nat) {blob : Blob}
    {tx : Transaction} {ei : TxExtraInfo} (h : PassesCore env n blob tx ei) :
    TakesIn env now blob (getTransactionHash env tx) n ↔
      Known n (getTransactionHash env tx) ∨
      ∃ used, n.chain.checkTxInputsWithId env now tx = .ok used ∧
        (used.isSome = true → n.pool.findAlias ei.mAlias.mAlias = nullHash) := by
  obtain ⟨hsound, hexact⟩ :=
    (keyImagesExact_invariant env).of_poolRun (guaranteed_distinctImages env).admitted hn
  have hdistinct := guaranteed_distinctImages env _ _ _ h.semantic
  unfold TakesIn
  rw [h.handleIncomingTx_eq]
  unfold addNewTx
  simp only
  by_cases hknown : Known n (getTransactionHash env tx)
  · rw [if_pos (by rw [Bool.or_eq_true]; exact hknown)]
    exact ⟨fun _ => .inl hknown, fun _ => ⟨_, _, rfl, rfl, hknown⟩⟩
  · rw [if_neg (by rw [Bool.or_eq_true]; exact hknown), or_iff_right hknown]
    have hnew : n.pool.mTransactions.contains (getTransactionHash env tx) = false :=
      Bool.eq_false_iff.2 fun hc => hknown (.inl hc)
    obtain ⟨i, o, hamounts⟩ := h.checkAmounts
    unfold TxMemoryPool.addTx
    rw [hamounts]
    simp only
    rw [if_neg (fun hc => hc.1 trivial)]
    cases hin : n.chain.checkTxInputsWithId env now tx with
    | error e =>
      constructor
      · intro ⟨_, _, hr, _⟩
        cases hr
      · intro ⟨_, hr, _⟩
        cases hr
    | ok used =>
      cases used with
      | none =>
        -- the inputs fail: the rival goes, and there is room
        have hfiled := filed_of_new (details env now tx (i - o) true none)
          (TxMemoryPool.KeyImagesExact.dropAliasRival hexact hsound.pool ei.mAlias.mAlias)
          hdistinct rfl
          (dropAliasRival_new ei.mAlias.mAlias hnew)
          { TxVerificationContext.empty with mVerifivationImpossible := true }
        exact ⟨fun _ => ⟨none, rfl, fun hc => absurd hc Bool.noConfusion⟩,
          fun _ => ⟨_, _, rfl, hfiled.1, .inl hfiled.2⟩⟩
      | some maxUsed =>
        obtain ⟨htxs, himages⟩ :=
          addAliasTxPair_tables n.pool ei.mAlias.mAlias (getTransactionHash env tx)
        simp only
        by_cases hfree : n.pool.findAlias ei.mAlias.mAlias = nullHash
        · have hok := (addAliasTxPair_fst n.pool ei.mAlias.mAlias (getTransactionHash env tx)).2 hfree
          have hfiled := filed_of_new (details env now tx (i - o) true (some maxUsed))
            (hexact.congr htxs himages) hdistinct rfl
            (by rw [htxs]; exact hnew)
            { TxVerificationContext.empty with mShouldBeRelayed := decide (0 < i - o) }
          rw [if_neg (not_not.2 hok)]
          exact ⟨fun _ => ⟨_, rfl, fun _ => hfree⟩, fun _ => ⟨_, _, rfl, hfiled.1, .inl hfiled.2⟩⟩
        · have hbad : ¬ (n.pool.addAliasTxPair ei.mAlias.mAlias (getTransactionHash env tx)).1 = true :=
            fun hc => hfree ((addAliasTxPair_fst _ _ _).1 hc)
          rw [if_pos hbad]
          constructor
          · intro ⟨_, _, hr, hfail, _⟩
            cases hr
            cases hfail
          · intro ⟨_, hr, halias⟩
            cases hr
            exact absurd (halias rfl) hfree

namespace Devnet

/-- A block's transaction that takes the alias the pool transaction of
`aliasTx` has; both verify. -/
def rivalBlob : Blob := [10, 0, 2, 0] ++ aliasExtra
def rivalTx : Transaction := spend 10 0 2 0 aliasExtra

/-- The same output, spent by another transaction of a block. -/
def conflictBlob : Blob := [3, 0, 9, 0]
def conflictTx : Transaction := spend 3 0 9 0 []

/-- A pool that holds a spend of that output already. -/
def conflicting : List Event := [.newBlock (mainBlock 1), .incomingTx [2, 0, 9, 0] true]

end Devnet

/-- `core`'s checks, as a check. -/
def passesCore (env : Env) (n : Node) (blob : Blob) (tx : Transaction) : Bool :=
  decide (blob.length ≤ currencyMaxTxSize) && decide (env.parseTx blob = some tx)
    && checkTxSemantic env n.chain tx.toTransactionPrefix true
    && (parseAndValidateTxExtra env tx.toTransactionPrefix).toOption.any (·.1)

theorem exists_passesCore {env : Env} {n : Node} {blob : Blob} {tx : Transaction}
    (h : passesCore env n blob tx = true) : ∃ ei, PassesCore env n blob tx ei := by
  unfold passesCore at h
  simp only [Bool.and_eq_true, decide_eq_true_eq] at h
  obtain ⟨⟨⟨hsize, hparse⟩, hsem⟩, hextra⟩ := h
  cases hr : parseAndValidateTxExtra env tx.toTransactionPrefix with
  | error e =>
    rw [hr] at hextra
    cases hextra
  | ok r =>
    obtain ⟨ok, ei⟩ := r
    rw [hr] at hextra
    have hok : ok = true := hextra
    subst hok
    exact ⟨ei, hsize, hparse, hsem, hr⟩

/-- The call failed the transaction, as a check. -/
def failsTx : EStateM.Result Exn Node TxMemoryPool.Verdict → Bool
  | .ok v _ => v.2.mVerifivationFailed
  | .error _ _ => false

theorem not_takesIn {env : Env} {now : Nat} {blob : Blob} {id : Hash} {n : Node}
    (h : failsTx (handleIncomingTx env now blob true n) = true) : ¬ TakesIn env now blob id n := by
  intro ⟨v, n', hr, hv, _⟩
  rw [hr] at h
  cases hv.symm.trans h

/-- Another transaction of the pool has the alias, and a block's transaction
with good inputs is refused. -/
theorem pool_alias_blocks_block_tx :
    ∃ n blob tx ei, PoolRun Devnet.env n ∧ PassesCore Devnet.env n blob tx ei ∧
      ¬ TakesIn Devnet.env Devnet.now blob (getTransactionHash Devnet.env tx) n := by
  have heval : (Devnet.run ∅ Devnet.aliasTx).isSome = true ∧
      passesCore Devnet.env (Devnet.node ∅ Devnet.aliasTx) Devnet.rivalBlob Devnet.rivalTx = true ∧
      failsTx (handleIncomingTx Devnet.env Devnet.now Devnet.rivalBlob true
        (Devnet.node ∅ Devnet.aliasTx)) = true := by decide +kernel
  obtain ⟨hrun, hpass, hfail⟩ := heval
  obtain ⟨ei, hpass⟩ := exists_passesCore hpass
  exact ⟨_, _, _, ei, (Devnet.reachable_node ∅ Devnet.aliasTx hrun).poolRun, hpass,
    not_takesIn hfail⟩

/-- A conflicting spend in the pool does no harm. -/
theorem block_tx_taken_in_conflict :
    ∃ n, PoolRun Devnet.env n ∧ n.pool.haveTx (Devnet.spendId 2) = true ∧
      TakesIn Devnet.env Devnet.now Devnet.conflictBlob (Devnet.spendId 3) n := by
  have heval : (Devnet.run ∅ Devnet.conflicting).isSome = true ∧
      (Devnet.node ∅ Devnet.conflicting).pool.haveTx (Devnet.spendId 2) = true ∧
      passesCore Devnet.env (Devnet.node ∅ Devnet.conflicting) Devnet.conflictBlob
        Devnet.conflictTx = true ∧
      ((Devnet.node ∅ Devnet.conflicting).chain.checkTxInputsWithId Devnet.env Devnet.now
        Devnet.conflictTx).toOption = some none := by decide +kernel
  obtain ⟨hrun, hfirst, hpass, hin⟩ := heval
  obtain ⟨ei, hpass⟩ := exists_passesCore hpass
  have hn := (Devnet.reachable_node ∅ Devnet.conflicting hrun).poolRun
  refine ⟨_, hn, hfirst, (block_tx_taken_in_iff hn Devnet.now hpass).2 (.inr ⟨none, ?_, ?_⟩)⟩
  · cases hr : (Devnet.node ∅ Devnet.conflicting).chain.checkTxInputsWithId Devnet.env Devnet.now
        Devnet.conflictTx with
    | error e =>
      rw [hr] at hin
      cases hin
    | ok used =>
      rw [hr] at hin
      rw [Option.some.inj hin]
  · intro hc
    cases hc

end DarknetSpace
