import DarknetSpace.Core.PoolImages
import DarknetSpace.Pool.FillTemplate

/-!
# The pool through a restart (`tx_pool.h`)

`deinit` writes the pool's three tables to a file and `init` reads them back. Of
an entry every field is in the file but `kept_by_block`: it is read into a
`tx_details` on the stack that nothing has initialised, so that what it says
afterwards is whatever was there.

`PoolFile` is what is written (`WrittenTo`) and `restarted` the pool that is read from
it, with the bytes on the stack as an argument. The ids, images and aliases are read
back as they were, whatever the order of the maps in the file
(`WrittenTo.restarted_eq`). `BehavesAs` compares two pools by what they do: what they
give out, what is ready for a block, and what the cleanup leaves of their tables.

Main result: `pool_survives_restart_iff`. An entry whose flag came back wrong can be
told by the time at which the cleanup drops it.
-/

namespace DarknetSpace

open TxMemoryPool

/-- What the archive has of a `tx_details`, in its order. -/
structure SavedTxDetails where
  blobSize : Nat
  fee : UInt64
  tx : Transaction
  maxUsedBlockHeight : Nat
  maxUsedBlockId : Hash
  lastFailedHeight : Nat
  lastFailedId : Hash
  receiveTime : Nat

def TxDetails.saved (txd : TxDetails) : SavedTxDetails where
  blobSize := txd.blobSize
  fee := txd.fee
  tx := txd.tx
  maxUsedBlockHeight := txd.maxUsedBlockHeight
  maxUsedBlockId := txd.maxUsedBlockId
  lastFailedHeight := txd.lastFailedHeight
  lastFailedId := txd.lastFailedId
  receiveTime := txd.receiveTime

/-- The entry as it is read; `keptByBlock` is what was in its place. -/
def SavedTxDetails.loaded (saved : SavedTxDetails) (keptByBlock : Bool) : TxDetails where
  tx := saved.tx
  blobSize := saved.blobSize
  fee := saved.fee
  maxUsedBlockId := saved.maxUsedBlockId
  maxUsedBlockHeight := saved.maxUsedBlockHeight
  keptByBlock
  lastFailedHeight := saved.lastFailedHeight
  lastFailedId := saved.lastFailedId
  receiveTime := saved.receiveTime

/-- `CURRENCY_POOLDATA_FILENAME`: the archive of a `tx_memory_pool`. -/
structure PoolFile where
  version : Nat
  projectName : String
  transactions : List (Hash × SavedTxDetails)
  spentKeyImages : List (KeyImage × List Hash)
  aliasesToTxid : List (Blob × Hash)

def currentMempoolArchiveVer : Nat := 13

def currencyName : String := "darknetspace"

namespace TxMemoryPool

/-- `deinit`: the tables, each in the order of its hash table. -/
structure WrittenTo (p : TxMemoryPool) (f : PoolFile) : Prop where
  version : f.version = currentMempoolArchiveVer
  projectName : f.projectName = currencyName
  transactions : f.transactions.Perm (p.mTransactions.toList.map fun e => (e.1, e.2.saved))
  spentKeyImages : ∃ entries, entries.Perm p.mSpentKeyImages.toList ∧
    List.Forall₂ (fun saved e => saved.1 = e.1 ∧ saved.2.Perm e.2.toList) f.spentKeyImages entries
  aliasesToTxid : f.aliasesToTxid.Perm p.mAliasesToTxid.toList

/-- `serialize` from an archive, into a pool that is new; `stack` is what the
bytes of `kept_by_block` hold when the entry of an id is read. -/
def load (stack : Hash → Bool) (f : PoolFile) : Bool × TxMemoryPool :=
  if f.version < 12 then (true, .empty)
  else if f.projectName ≠ currencyName then (false, .empty)
  else
    (true, {
      mTransactions := .ofList (f.transactions.map fun e => (e.1, e.2.loaded (stack e.1)))
      mSpentKeyImages := .ofList (f.spentKeyImages.map fun e => (e.1, Std.ExtTreeSet.ofList e.2 compare))
      mAliasesToTxid := if f.version ≥ 13 then .ofList f.aliasesToTxid else ∅ })

/-- The pool that `init` comes up with. -/
def restarted (stack : Hash → Bool) (f : PoolFile) : TxMemoryPool := (load stack f).2

/-! ## What is restored -/

section

variable {p : TxMemoryPool} {f : PoolFile} {stack : Hash → Bool}

theorem WrittenTo.load_eq (h : p.WrittenTo f) : load stack f = (true, {
    mTransactions := .ofList (f.transactions.map fun e => (e.1, e.2.loaded (stack e.1)))
    mSpentKeyImages := .ofList (f.spentKeyImages.map fun e => (e.1, Std.ExtTreeSet.ofList e.2 compare))
    mAliasesToTxid := .ofList f.aliasesToTxid }) := by
  unfold load
  rw [h.version, h.projectName, if_neg (by decide), if_neg (fun hne => hne rfl), if_pos (by decide)]

theorem WrittenTo.aliases (h : p.WrittenTo f) :
    (restarted stack f).mAliasesToTxid = p.mAliasesToTxid := by
  unfold restarted
  rw [h.load_eq]
  exact FinMap.ofList_of_perm h.aliasesToTxid

theorem WrittenTo.keyImages (h : p.WrittenTo f) :
    (restarted stack f).mSpentKeyImages = p.mSpentKeyImages := by
  obtain ⟨entries, hperm, hsaved⟩ := h.spentKeyImages
  have hback : f.spentKeyImages.map (fun e => (e.1, Std.ExtTreeSet.ofList e.2 compare)) = entries := by
    clear hperm
    generalize f.spentKeyImages = savedEntries at hsaved
    induction hsaved with
    | nil => rfl
    | @cons saved e rest rest' hhead _ ih =>
      rw [List.map_cons, ih, hhead.1, FinMap.set_ofList_of_perm hhead.2]
  unfold restarted
  rw [h.load_eq]
  simp only
  rw [hback]
  exact FinMap.ofList_of_perm hperm

/-- Every entry is back, with whatever was on the stack for the missing field. -/
theorem WrittenTo.transactions_get (h : p.WrittenTo f) (id : Hash) :
    (restarted stack f).mTransactions[id]? =
      p.mTransactions[id]?.map fun txd => { txd with keptByBlock := stack id } := by
  have hloaded : (f.transactions.map fun e => (e.1, e.2.loaded (stack e.1))).Perm
      (p.mTransactions.toList.map fun e => (e.1, { e.2 with keptByBlock := stack e.1 })) := by
    have := h.transactions.map fun e => (e.1, e.2.loaded (stack e.1))
    rwa [List.map_map] at this
  have hdistinct : (p.mTransactions.toList.map fun e =>
      (e.1, { e.2 with keptByBlock := stack e.1 })).Pairwise fun a b => ¬ compare a.1 b.1 = .eq :=
    List.pairwise_map.2 Std.ExtTreeMap.distinct_keys_toList
  have hdistinct' := (hloaded.pairwise_iff fun {a b} hab hba =>
    hab (Std.OrientedCmp.eq_symm hba)).2 hdistinct
  unfold restarted
  rw [h.load_eq]
  refine Option.ext fun txd => ?_
  rw [FinMap.getElem?_ofList hdistinct', hloaded.mem_iff, List.mem_map, Option.map_eq_some_iff]
  constructor
  · rintro ⟨⟨id', txd'⟩, hmem, heq⟩
    cases heq
    exact ⟨txd', Std.ExtTreeMap.mem_toList_iff_getElem?_eq_some.1 hmem, rfl⟩
  · rintro ⟨txd', hget, rfl⟩
    exact ⟨(id, txd'), Std.ExtTreeMap.mem_toList_iff_getElem?_eq_some.2 hget, rfl⟩

/-- Where the stack happened to hold what the entries had, nothing has changed. -/
theorem WrittenTo.restarted_eq (h : p.WrittenTo f)
    (hkept : ∀ (id : Hash) txd, p.mTransactions[id]? = some txd → stack id = txd.keptByBlock) :
    restarted stack f = p := by
  have htxs : (restarted stack f).mTransactions = p.mTransactions := by
    apply Std.ExtTreeMap.ext_getElem?
    intro id
    rw [h.transactions_get]
    cases hget : p.mTransactions[id]? with
    | none => rfl
    | some txd =>
      rw [Option.map_some, hkept id txd hget]
  have himages : (restarted stack f).mSpentKeyImages = p.mSpentKeyImages := h.keyImages
  have haliases : (restarted stack f).mAliasesToTxid = p.mAliasesToTxid := h.aliases
  generalize restarted stack f = q at htxs himages haliases
  obtain ⟨txs, images, aliases⟩ := q
  subst htxs himages haliases
  rfl

end

/-! ## What the pool does -/

/-- `is_transaction_ready_to_go` on the entry of an id: what it returns, and the
entry it leaves as far as it is in the archive. -/
def readyToGo (env : Env) (now : Nat) (chain : Storage) (p : TxMemoryPool) (id : Hash) :
    Option (Except Exn (Bool × SavedTxDetails)) :=
  p.mTransactions[id]?.map fun txd =>
    (isTransactionReadyToGo env now chain txd).map fun r => (r.1, r.2.saved)

/-- Two pools that cannot be told apart by what is asked of a pool. -/
structure BehavesAs (env : Env) (p q : TxMemoryPool) : Prop where
  takeTx : ∀ id, (q.takeTx env id).map (fun r => (r.1.tx, r.1.blobSize, r.1.fee)) =
    (p.takeTx env id).map fun r => (r.1.tx, r.1.blobSize, r.1.fee)
  spent : ∀ tx, q.haveTxKeyimgesAsSpent tx = p.haveTxKeyimgesAsSpent tx
  ready : ∀ now chain id, q.readyToGo env now chain id = p.readyToGo env now chain id
  stuck : ∀ now order id, (q.removeStuckTransactions env now order).haveTx id =
    (p.removeStuckTransactions env now order).haveTx id
  stuckImages : ∀ now order, (q.removeStuckTransactions env now order).mSpentKeyImages =
    (p.removeStuckTransactions env now order).mSpentKeyImages
  stuckAliases : ∀ now order, (q.removeStuckTransactions env now order).mAliasesToTxid =
    (p.removeStuckTransactions env now order).mAliasesToTxid

theorem BehavesAs.refl (env : Env) (p : TxMemoryPool) : BehavesAs env p p :=
  ⟨fun _ => rfl, fun _ => rfl, fun _ _ _ => rfl, fun _ _ _ => rfl, fun _ _ => rfl, fun _ _ => rfl⟩

/-- A day and some hours later an entry of the network is outdated and one of a
block is not. -/
theorem isOutdated_later (txd : TxDetails) :
    isOutdated (txd.receiveTime + 100000) txd = !txd.keptByBlock := by
  have hage : (txd.receiveTime + 100000 + 2 ^ 64 - txd.receiveTime) % 2 ^ 64 = 100000 := by omega
  unfold isOutdated
  rw [hage]
  cases txd.keptByBlock <;> decide

theorem removeStuck_later {env : Env} {p : TxMemoryPool} {id : Hash} {txd : TxDetails}
    (h : p.mTransactions[id]? = some txd) :
    (p.removeStuckTransactions env (txd.receiveTime + 100000) [id]).haveTx id = txd.keptByBlock := by
  unfold removeStuckTransactions
  rw [List.foldl_cons, List.foldl_nil]
  unfold removeIfStuck
  rw [h]
  simp only
  rw [isOutdated_later]
  cases hkept : txd.keptByBlock with
  | false =>
    rw [Bool.not_false, if_pos rfl]
    show (p.mTransactions.erase id).contains id = false
    rw [Std.ExtTreeMap.contains_eq_isSome_getElem?, Std.ExtTreeMap.getElem?_erase_self]
    rfl
  | true =>
    rw [Bool.not_true, if_neg Bool.false_ne_true]
    show p.mTransactions.contains id = true
    rw [Std.ExtTreeMap.contains_eq_isSome_getElem?, h]
    rfl

/-- An entry that comes back the other way gives it away, a day later. -/
theorem not_behavesAs_of_stack {env : Env} {p : TxMemoryPool} {f : PoolFile} {stack : Hash → Bool}
    {id : Hash} {txd : TxDetails} (hf : p.WrittenTo f) (h : p.mTransactions[id]? = some txd)
    (hne : stack id ≠ txd.keptByBlock) : ¬ BehavesAs env p (restarted stack f) := by
  intro hsame
  have hback : (restarted stack f).mTransactions[id]? =
      some { txd with keptByBlock := stack id } := by
    rw [hf.transactions_get, h]
    rfl
  have hstuck := hsame.stuck (txd.receiveTime + 100000) [id] id
  rw [removeStuck_later h] at hstuck
  exact hne ((removeStuck_later hback).symm.trans hstuck)

end TxMemoryPool

/-- A pool behaves after a restart as before it, if and only if the bytes on the
stack were for every entry what its `kept_by_block` had been. -/
theorem pool_survives_restart_iff (env : Env) {p : TxMemoryPool} {f : PoolFile}
    (hf : p.WrittenTo f) (stack : Hash → Bool) :
    BehavesAs env p (restarted stack f) ↔
      ∀ (id : Hash) txd, p.mTransactions[id]? = some txd → stack id = txd.keptByBlock := by
  constructor
  · intro hsame id txd h
    by_contra hne
    exact not_behavesAs_of_stack hf h hne hsame
  · intro hkept
    rw [hf.restarted_eq hkept]
    exact .refl env p

/-- The file with the tables in order. -/
def TxMemoryPool.archive (p : TxMemoryPool) : PoolFile where
  version := currentMempoolArchiveVer
  projectName := currencyName
  transactions := p.mTransactions.toList.map fun e => (e.1, e.2.saved)
  spentKeyImages := p.mSpentKeyImages.toList.map fun e => (e.1, e.2.toList)
  aliasesToTxid := p.mAliasesToTxid.toList

theorem TxMemoryPool.writtenTo_archive (p : TxMemoryPool) : p.WrittenTo p.archive := by
  refine ⟨rfl, rfl, .refl _, ⟨p.mSpentKeyImages.toList, .refl _, ?_⟩, .refl _⟩
  show List.Forall₂ _ (p.mSpentKeyImages.toList.map fun e => (e.1, e.2.toList)) _
  generalize p.mSpentKeyImages.toList = entries
  induction entries with
  | nil => exact .nil
  | cons e rest ih => exact .cons ⟨rfl, .refl _⟩ ih

namespace Devnet

/-- The pool with the two transactions of blocks. -/
def blockTxs : TxMemoryPool := (node ∅ sharedImage).pool

theorem blockTxs_kept : (blockTxs.mTransactions[spendId 2]?.map (·.keptByBlock)) = some true := by
  decide +kernel

end Devnet

theorem pool_survives_restart_iff_devnet :
    BehavesAs Devnet.env Devnet.blockTxs (restarted (fun _ => true) Devnet.blockTxs.archive) ↔
      ∀ (id : Hash) txd, Devnet.blockTxs.mTransactions[id]? = some txd → true = txd.keptByBlock :=
  pool_survives_restart_iff Devnet.env Devnet.blockTxs.writtenTo_archive fun _ => true

/-- With zeros on the stack the transactions of blocks are gone after a day. -/
theorem pool_forgets_kept_by_block :
    ¬ BehavesAs Devnet.env Devnet.blockTxs (restarted (fun _ => false) Devnet.blockTxs.archive) := by
  obtain ⟨txd, hget, hkept⟩ := Option.map_eq_some_iff.1 Devnet.blockTxs_kept
  refine not_behavesAs_of_stack Devnet.blockTxs.writtenTo_archive hget ?_
  rw [hkept]
  exact Bool.false_ne_true

end DarknetSpace
