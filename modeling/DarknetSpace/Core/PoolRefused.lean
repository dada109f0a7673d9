import DarknetSpace.Core.BlockTxs
import DarknetSpace.Core.PoolImages

/-!
# A refused transaction leaves no trace in the pool

`add_tx` writes in up to four steps, and there are ways out between them. The late
ones are there for a transaction that the pool already has, or for key images that
do not fit; what its callers have checked before, and what holds of every pool,
leaves none of them open behind a write.

The ways out behind a write are: the transaction is there already, its images are, or
its alias is. For each of these `PoolSound` or the checks of the caller say that it is
not taken: ids and images are looked up before, and an alias is handed in only by a
caller that has looked it up. `refused_tx_leaves_pool` is for every pool of a run and
every caller.
-/

namespace DarknetSpace

open StateExn TxMemoryPool

/-- `add_tx` as it is called: by `core::add_new_tx` with what it has checked, by
`purge_transaction_from_blockchain` with a transaction that the index of a chain
says it has, and by `handle_block_to_main_chain` with the one it has just taken
out of the pool. -/
inductive AddTxCall (env : Env) : Storage → TxMemoryPool → Transaction → (kept : Bool) →
    (aliasName : Blob) → Prop where
  | addNewTx {chain : Storage} {p : TxMemoryPool} {tx : Transaction} {kept : Bool}
      {ei : TxExtraInfo} (hsem : checkTxSemantic env chain tx.toTransactionPrefix kept = true)
      (hextra : parseAndValidateTxExtra env tx.toTransactionPrefix = .ok (true, ei))
      (hpool : p.haveTx (getTransactionHash env tx) = false)
      (hchain : chain.haveTx (getTransactionHash env tx) = false) :
      AddTxCall env chain p tx kept ei.mAlias.mAlias
  | purgeTransaction {n : Node} {s chain : Storage} {p : TxMemoryPool} {txId : Hash}
      {idx : TransactionIndex} {txe : TransactionEntry} (hn : PoolRun env n)
      (hs : ReadsAs n.chain s) (hidx : s.mTransactions[txId]? = some idx)
      (hread : s.transactionByIndex idx = .ok txe)
      (hordinary : isCoinbase txe.tx.toTransactionPrefix = false) :
      AddTxCall env chain p txe.tx true []
  | handleBlock {chain : Storage} {p₀ p : TxMemoryPool} {id : Hash} {txd : TxDetails} {zone : Bool}
      (hp : PoolSound env DistinctImages p₀) (htake : p₀.takeTx env id = some (txd, p)) :
      AddTxCall env chain p (prunedTx zone txd.tx) true []

section

variable {env : Env} {chain : Storage} {p p' : TxMemoryPool} {tx : Transaction} {kept : Bool}
  {name : Blob}

/-- What every caller has made sure of. -/
theorem AddTxCall.guarantees (h : AddTxCall env chain p tx kept name) :
    DistinctImages tx.toTransactionPrefix ∧
      (name = [] ∨ p.haveTx (getTransactionHash env tx) = false) := by
  cases h with
  | addNewTx hsem hextra hpool hchain =>
    exact ⟨guaranteed_distinctImages env chain tx.toTransactionPrefix kept hsem, Or.inr hpool⟩
  | @purgeTransaction n s chain p txId idx txe hn hs hidx hread hordinary =>
    have hsound := ((keyImagesExact_invariant env).of_poolRun
      (guaranteed_distinctImages env).admitted hn).1
    obtain ⟨txe', hread', heq⟩ := transactionByIndex_congr hs.blocks hread
    have hgood := hsound.txs.read hread'
    rw [heq] at hgood
    refine ⟨hgood.resolve_left ?_, Or.inl rfl⟩
    rw [hordinary]
    exact Bool.false_ne_true
  | handleBlock hp htake =>
    refine ⟨?_, Or.inl rfl⟩
    rw [prunedTx_toPrefix]
    exact (hp.takeTx htake).1.good

/-- Filing fails for a transaction that is there already, and for no other. -/
theorem TxMemoryPool.KeyImagesExact.insertTx_refused {id : Hash} {txd : TxDetails}
    (h : KeyImagesExact p) (hd : DistinctImages txd.tx.toTransactionPrefix)
    (hunused : txd.keptByBlock = false →
      ∀ k ∈ keyImages txd.tx.vin, p.mSpentKeyImages.contains k = false)
    {tvc : TxVerificationContext} (hfalse : (p.insertTx id txd tvc).1.1 = false) :
    p.haveTx id = true ∧ (p.insertTx id txd tvc).2 = p := by
  cases hc : p.mTransactions.contains id with
  | false =>
    rw [(KeyImagesExact.insertTx h hd hc hunused tvc).1] at hfalse
    cases hfalse
  | true =>
    refine ⟨hc, ?_⟩
    unfold TxMemoryPool.insertTx
    rw [if_pos hc]

theorem dropAliasRival_nil (env : Env) (p : TxMemoryPool) : p.dropAliasRival env [] = p := by
  unfold TxMemoryPool.dropAliasRival TxMemoryPool.findAlias
  rw [if_pos rfl, if_pos rfl]

theorem addAliasTxPair_nil (p : TxMemoryPool) (id : Hash) : p.addAliasTxPair [] id = (true, p) := by
  unfold TxMemoryPool.addAliasTxPair
  rw [if_pos rfl]

/-- Whatever the pool and whichever caller, `add_tx` returns `false` only with the
pool as it was. -/
theorem refused_tx_leaves_pool {now : Nat} {v : Verdict} (hp : PoolSound env DistinctImages p)
    (himages : KeyImagesExact p) (hcall : AddTxCall env chain p tx kept name)
    (h : p.addTx env now chain tx kept name = .ok (v, p')) (hfalse : v.1 = false) : p' = p := by
  obtain ⟨hdistinct, hknown⟩ := hcall.guarantees
  obtain ⟨-, rfl⟩ | ⟨i, o, -, ⟨hkept, -, hins⟩ | ⟨hallowed, -, maxUsed, -, hins⟩⟩ := addTx_cases h
  · rfl
  · -- a block's transaction whose inputs fail: its alias rival may be gone by now
    have hv : v = _ := congrArg Prod.fst hins
    have hp' : p' = _ := congrArg Prod.snd hins
    rw [hv] at hfalse
    obtain ⟨hhave, hsame⟩ := (himages.dropAliasRival hp name).insertTx_refused hdistinct
      (fun hnot => absurd hnot Bool.noConfusion) hfalse
    rcases hknown with rfl | hnew
    · rw [hp', hsame, dropAliasRival_nil]
    · have hstill : (p.dropAliasRival env name).haveTx (getTransactionHash env tx) = false :=
        dropAliasRival_new name hnew
      exact absurd (hhave.symm.trans hstill) Bool.noConfusion
  · -- its inputs pass: its alias may be listed by now
    have hv : v = _ := congrArg Prod.fst hins
    have hp' : p' = _ := congrArg Prod.snd hins
    rw [hv] at hfalse
    obtain ⟨htxs, hspent⟩ := addAliasTxPair_tables p name (getTransactionHash env tx)
    have hunused : kept = false → ∀ k ∈ keyImages tx.vin,
        (p.addAliasTxPair name (getTransactionHash env tx)).2.mSpentKeyImages.contains k = false := by
      intro hnot
      have hallowed' : checkNotKept env chain p tx (i - o) = true := by
        rcases hallowed with hkept | hchecked
        · rw [hkept] at hnot
          cases hnot
        · exact hchecked
      rw [hspent]
      exact unused_of_notKept hallowed'
    obtain ⟨hhave, hsame⟩ := (himages.congr htxs hspent).insertTx_refused hdistinct hunused hfalse
    rcases hknown with rfl | hnew
    · rw [hp', hsame, addAliasTxPair_nil]
    · unfold TxMemoryPool.haveTx at hhave hnew
      rw [htxs] at hhave
      exact absurd (hhave.symm.trans hnew) Bool.noConfusion

end


namespace Devnet

/-- A third spender of that image, which comes without a block. -/
def lateSpend : Transaction := spend 4 0 9 0 []

def lateCall : Except Exn (Verdict × TxMemoryPool) :=
  (node ∅ sharedImage).pool.addTx env 0 (node ∅ sharedImage).chain lateSpend false []

def isRefusal : Except Exn (Verdict × TxMemoryPool) → Bool
  | .ok (v, _) => !v.1
  | .error _ => false

theorem refused_of_isRefusal {r : Except Exn (Verdict × TxMemoryPool)} (h : isRefusal r = true) :
    ∃ v p', r = .ok (v, p') ∧ v.1 = false := by
  rcases r with e | ⟨v, p'⟩
  · cases h
  · exact ⟨v, p', rfl, Bool.not_eq_true' _ ▸ h⟩

end Devnet

theorem refused_tx_leaves_pool_devnet :
    ∃ v p', Devnet.lateCall = .ok (v, p') ∧ v.1 = false ∧
      p' = (Devnet.node ∅ Devnet.sharedImage).pool := by
  have heval : (Devnet.run ∅ Devnet.sharedImage).isSome = true ∧
      Devnet.isRefusal Devnet.lateCall = true ∧
      checkTxSemantic Devnet.env (Devnet.node ∅ Devnet.sharedImage).chain
        Devnet.lateSpend.toTransactionPrefix false = true ∧
      (Devnet.node ∅ Devnet.sharedImage).pool.haveTx
        (getTransactionHash Devnet.env Devnet.lateSpend) = false ∧
      (Devnet.node ∅ Devnet.sharedImage).chain.haveTx
        (getTransactionHash Devnet.env Devnet.lateSpend) = false := by
    decide +kernel
  obtain ⟨hrun, hrefusal, hsem, hpool, hchain⟩ := heval
  have hn := (Devnet.reachable_node ∅ Devnet.sharedImage hrun).poolRun
  obtain ⟨hsound, himages⟩ := (keyImagesExact_invariant Devnet.env).of_poolRun
    (guaranteed_distinctImages Devnet.env).admitted hn
  obtain ⟨v, p', hcall, hfalse⟩ := Devnet.refused_of_isRefusal hrefusal
  have hextra : parseAndValidateTxExtra Devnet.env Devnet.lateSpend.toTransactionPrefix =
      .ok (true, TxExtraInfo.empty) := rfl
  have hmade : AddTxCall Devnet.env (Devnet.node ∅ Devnet.sharedImage).chain
      (Devnet.node ∅ Devnet.sharedImage).pool Devnet.lateSpend false [] :=
    .addNewTx hsem hextra hpool hchain
  refine ⟨v, p', hcall, hfalse, ?_⟩
  unfold Devnet.lateCall at hcall
  exact refused_tx_leaves_pool hsound.pool himages hmade hcall hfalse

end DarknetSpace
