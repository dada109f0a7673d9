import DarknetSpace.Core.Pooled
import DarknetSpace.Pool.KeyImages

/-!
# The key-image map of the pool is exact

In every run each image's set is the pool transactions that spend it. The
transactions come in from the network with distinct images, and those that come
back from a block came from the pool before.

The pool keeps a table from key images to ids, beside the transactions themselves.
`add_tx` files the images of what it stores, and `take_tx` and the cleanup take them out
again and complain when an image is not there. That it always is, is an invariant over
whole runs: blocks on any branch, pops, transactions of every kind, in any order.
`pool_key_images_exact` is the instance of `PoolInvariant` for it; the table as a
relation is in `Lib/SetMap`, and what each operation does to it in `Pool/KeyImages`.
-/

namespace DarknetSpace

open StateExn TxMemoryPool

theorem guaranteed_distinctImages (env : Env) : Guaranteed env DistinctImages := by
  intro s tx kept hsem
  unfold checkTxSemantic at hsem
  exact (Bool.and_eq_true _ _ ▸ hsem : _ ∧ checkTxInputsKeyimagesDiff tx = true).2

section

variable {env : Env} {p p' : TxMemoryPool}

theorem PoolSound.filedDistinct (h : PoolSound env DistinctImages p) {id : Hash} :
    ∀ txd, p.mTransactions[id]? = some txd → FiledDistinct env id txd :=
  fun txd hm => ⟨(h id txd hm).id_eq, (h id txd hm).good⟩

theorem TxMemoryPool.KeyImagesExact.dropAliasRival (h : KeyImagesExact p) (hp : PoolSound env DistinctImages p)
    (name : Blob) : KeyImagesExact (p.dropAliasRival env name) := by
  unfold TxMemoryPool.dropAliasRival
  split
  · exact h
  · cases ht : p.takeTx env (p.findAlias name) with
    | none => exact h
    | some r => exact KeyImagesExact.takeTx h ht hp.filedDistinct

theorem addAliasTxPair_tables (p : TxMemoryPool) (name : Blob) (id : Hash) :
    (p.addAliasTxPair name id).2.mTransactions = p.mTransactions ∧
      (p.addAliasTxPair name id).2.mSpentKeyImages = p.mSpentKeyImages := by
  unfold TxMemoryPool.addAliasTxPair
  split
  · exact ⟨rfl, rfl⟩
  · split <;> exact ⟨rfl, rfl⟩

/-- Without a block, the images were looked up just before. -/
theorem unused_of_notKept {chain : Storage} {tx : Transaction} {fee : UInt64}
    (h : checkNotKept env chain p tx fee = true) :
    ∀ k ∈ keyImages tx.vin, p.mSpentKeyImages.contains k = false := by
  unfold checkNotKept at h
  rw [Bool.and_eq_true, Bool.and_eq_true, Bool.not_eq_true'] at h
  have hnone := h.1.2
  unfold haveTxKeyimgesAsSpent at hnone
  rw [List.any_eq_false] at hnone
  intro k hk
  obtain ⟨i, hi, hik⟩ := List.mem_filterMap.1 hk
  have := hnone i hi
  cases i with
  | toKey amount offs kImage =>
    cases hik
    exact Bool.eq_false_iff.2 this
  | _ => cases hik

/-- Filing a transaction, whether or not its id is free. -/
theorem TxMemoryPool.KeyImagesExact.insert {id : Hash} {txd : TxDetails} (h : KeyImagesExact p)
    (hd : DistinctImages txd.tx.toTransactionPrefix)
    (hunused : txd.keptByBlock = false →
      ∀ k ∈ keyImages txd.tx.vin, p.mSpentKeyImages.contains k = false)
    (tvc : TxVerificationContext) : KeyImagesExact (p.insertTx id txd tvc).2 := by
  cases hc : p.mTransactions.contains id with
  | false => exact (KeyImagesExact.insertTx h hd hc hunused tvc).2.2.2
  | true =>
    unfold TxMemoryPool.insertTx
    rw [if_pos hc]
    exact h

theorem keyImagesExact_invariant (env : Env) : PoolInvariant env DistinctImages KeyImagesExact := by
  refine ⟨.empty, fun hp ht h => KeyImagesExact.takeTx h ht hp.filedDistinct, ?_⟩
  intro p p' now chain tx kept name v hp hG ha h
  obtain ⟨-, rfl⟩ | ⟨i, o, -, ⟨-, -, hins⟩ | ⟨hallowed, -, _, -, hins⟩⟩ := addTx_cases ha
  · exact h
  · obtain ⟨-, rfl⟩ := Prod.mk.inj hins
    refine KeyImagesExact.insert (h.dropAliasRival hp name) hG (fun hk => ?_) _
    cases hk
  · obtain ⟨-, rfl⟩ := Prod.mk.inj hins
    obtain ⟨htxs, himages⟩ := addAliasTxPair_tables p name (getTransactionHash env tx)
    refine KeyImagesExact.insert (h.congr htxs himages) hG (fun hk => ?_) _
    rw [himages]
    refine unused_of_notKept (hallowed.resolve_left fun hkept => ?_)
    rw [hkept] at hk
    cases hk

end

/-- In every run the key-image map of the pool is exact, and the images of a
pool transaction can always be taken out. -/
theorem pool_key_images_exact {env : Env} {n : Node} (hn : PoolRun env n) :
    KeyImagesExact n.pool ∧ ∀ (id : Hash) txd, n.pool.mTransactions[id]? = some txd →
      (removeTransactionKeyimages (getTransactionHash env txd.tx) txd.tx.vin
        n.pool.mSpentKeyImages).1 = true := by
  obtain ⟨hsound, hexact⟩ :=
    (keyImagesExact_invariant env).of_poolRun (guaranteed_distinctImages env).admitted hn
  refine ⟨hexact, fun id txd hm => ?_⟩
  rw [hexact.removes hm (hsound.pool.filedDistinct txd hm)]

/-- Two transactions of blocks that spend one output, both in the pool. -/
def Devnet.sharedImage : List Event :=
  [.newBlock (mainBlock 1), .incomingTx [2, 0, 9, 0] true, .incomingTx [3, 0, 9, 0] true]

theorem pool_key_images_exact_shared :
    (Devnet.node ∅ Devnet.sharedImage).pool.haveTx (Devnet.spendId 2) = true ∧
    (Devnet.node ∅ Devnet.sharedImage).pool.haveTx (Devnet.spendId 3) = true ∧
    KeyImagesExact (Devnet.node ∅ Devnet.sharedImage).pool := by
  have heval : (Devnet.run ∅ Devnet.sharedImage).isSome = true ∧
      (Devnet.node ∅ Devnet.sharedImage).pool.haveTx (Devnet.spendId 2) = true ∧
      (Devnet.node ∅ Devnet.sharedImage).pool.haveTx (Devnet.spendId 3) = true := by
    decide +kernel
  obtain ⟨hrun, hfirst, hsecond⟩ := heval
  have hn := (Devnet.reachable_node ∅ Devnet.sharedImage hrun).poolRun
  exact ⟨hfirst, hsecond, (pool_key_images_exact hn).1⟩

end DarknetSpace
