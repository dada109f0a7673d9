import DarknetSpace.Chain.Inputs

/-!
# The transaction pool (`tx_pool.cpp`)

`add_tx` reads the chain to check the transaction's inputs, and that read is
the only thing in it that can throw; it happens before anything is written.
With `kept_by_block` a transaction whose inputs fail is stored all the same.

A transaction is filed under the hash of its prefix, so two transactions that
differ only in their signatures have one place in the pool between them.

`addTx_cases` lists the ways out of `add_tx` with the pool each of them leaves; what is
proved of the pool is proved from there. The tables of aliases and key images are filed
by functions of their own, which check and write in the source's order, so that what a
refusal leaves behind can be seen.
-/

namespace DarknetSpace

structure TxDetails where
  tx : Transaction
  blobSize : Nat
  fee : UInt64
  maxUsedBlockId : Hash
  maxUsedBlockHeight : Nat
  keptByBlock : Bool
  lastFailedHeight : Nat
  lastFailedId : Hash
  receiveTime : Nat
  deriving DecidableEq

structure TxMemoryPool where
  mTransactions : Map Hash TxDetails
  mSpentKeyImages : Map KeyImage (Std.ExtTreeSet Hash compare)
  mAliasesToTxid : Map Blob Hash

def TxMemoryPool.empty : TxMemoryPool where
  mTransactions := ∅
  mSpentKeyImages := ∅
  mAliasesToTxid := ∅

structure TxVerificationContext where
  mShouldBeRelayed : Bool
  mVerifivationFailed : Bool
  mVerifivationImpossible : Bool
  mAddedToPool : Bool
  deriving DecidableEq

def TxVerificationContext.empty : TxVerificationContext := ⟨false, false, false, false⟩

namespace TxMemoryPool

def haveTx (p : TxMemoryPool) (id : Hash) : Bool := p.mTransactions.contains id

/-! ## Aliases of pool transactions -/

/-- `find_alias`; the null hash when there is none. -/
def findAlias (p : TxMemoryPool) (aliasName : Blob) : Hash :=
  if aliasName = [] then nullHash else p.mAliasesToTxid.getD aliasName nullHash

/-- `add_alias_tx_pair`. -/
def addAliasTxPair (p : TxMemoryPool) (aliasName : Blob) (id : Hash) : Bool × TxMemoryPool :=
  if aliasName = [] then (true, p)
  else if p.findAlias aliasName ≠ nullHash then (false, p)
  else (true, { p with mAliasesToTxid := p.mAliasesToTxid.insert aliasName id })

/-- `remove_alias_tx_pair`: the first pair of that transaction. -/
def removeAliasTxPair (p : TxMemoryPool) (id : Hash) : TxMemoryPool :=
  match p.mAliasesToTxid.toList.find? (·.2 == id) with
  | none => p
  | some (aliasName, _) => { p with mAliasesToTxid := p.mAliasesToTxid.erase aliasName }

/-! ## Key images of pool transactions -/

/-- `have_tx_keyimges_as_spent`: an input of another type counts as spent. -/
def haveTxKeyimgesAsSpent (p : TxMemoryPool) (tx : TransactionPrefix) : Bool :=
  tx.vin.any fun
    | .toKey _ _ kImage => p.mSpentKeyImages.contains kImage
    | _ => true

/-- The loop at the end of `add_tx`: it stops at the first image it cannot
take, with those before it recorded. -/
def addKeyImages (keptByBlock : Bool) (id : Hash) :
    List Txin → Map KeyImage (Std.ExtTreeSet Hash compare) →
    Bool × Map KeyImage (Std.ExtTreeSet Hash compare)
  | [], m => (true, m)
  | .toKey _ _ kImage :: rest, m =>
    let set := m.getD kImage ∅
    -- `m_spent_key_images[...]` has created the set by then
    if !keptByBlock && !set.isEmpty then (false, m.insert kImage set)
    else if set.contains id then (false, m)
    else addKeyImages keptByBlock id rest (m.insert kImage (set.insert id))
  | _ :: _, m => (false, m)

/-- `remove_transaction_keyimages`, likewise up to the first failure. -/
def removeKeyImages (id : Hash) : List Txin → Map KeyImage (Std.ExtTreeSet Hash compare) →
    Map KeyImage (Std.ExtTreeSet Hash compare)
  | [], m => m
  | .toKey _ _ kImage :: rest, m =>
    match m[kImage]? with
    | none => m
    | some set =>
      if ¬ set.contains id then m
      else
        let set := set.erase id
        removeKeyImages id rest (if set.isEmpty then m.erase kImage else m.insert kImage set)
  | _ :: _, m => m

/-- `take_tx`: the entry, and the pool without it. -/
def takeTx (env : Env) (p : TxMemoryPool) (id : Hash) : Option (TxDetails × TxMemoryPool) :=
  match p.mTransactions[id]? with
  | none => none
  | some txd =>
    some (txd,
      { p with
        mSpentKeyImages :=
          -- by the id of the transaction kept, not by the id it was asked for
          removeKeyImages (getTransactionHash env txd.tx) txd.tx.vin p.mSpentKeyImages
        mTransactions := p.mTransactions.erase id }.removeAliasTxPair id)

/-! ## `add_tx` -/

/-- The checks of `add_tx` on amounts: inputs and outputs, when every input is
`txin_to_key` and more goes in than comes out. -/
def checkAmounts (tx : TransactionPrefix) : Option (UInt64 × UInt64) :=
  if ¬ checkInputsTypesSupported tx then none
  else
    match getInputsMoneyAmount tx with
    | none => none
    | some inputsAmount =>
      if getOutsMoneyAmount tx ≥ inputsAmount then none
      else some (inputsAmount, getOutsMoneyAmount tx)

/-- The rules a transaction has to meet when it does not come with a block. -/
def checkNotKept (env : Env) (chain : Storage) (p : TxMemoryPool) (tx : Transaction)
    (fee : UInt64) : Bool :=
  decide (getObjectBlobsize env tx.toTransactionPrefix
      ≤ getMaxTransactionBlobSize chain.getCurrentBlockchainHeight)
    && !p.haveTxKeyimgesAsSpent tx.toTransactionPrefix
    && decide (fee ≥ txPoolMinimumFee)

/-- The entry `add_tx` files; the null id when the inputs were not accepted. -/
def details (env : Env) (now : Nat) (tx : Transaction) (fee : UInt64) (keptByBlock : Bool)
    (maxUsed : Option (Nat × Hash)) : TxDetails where
  tx
  blobSize := getObjectBlobsize env tx.toTransactionPrefix
  fee
  maxUsedBlockId := (maxUsed.map (·.2)).getD nullHash
  maxUsedBlockHeight := (maxUsed.map (·.1)).getD 0
  keptByBlock
  lastFailedHeight := 0
  lastFailedId := nullHash
  receiveTime := now

/-- A verdict of the pool: what the call returned, the context it filled in. -/
abbrev Verdict := Bool × TxVerificationContext

def refused : Verdict := (false, { TxVerificationContext.empty with mVerifivationFailed := true })

/-- File the transaction and its key images. -/
def insertTx (p : TxMemoryPool) (id : Hash) (txd : TxDetails) (tvc : TxVerificationContext) :
    Verdict × TxMemoryPool :=
  -- the alias pair of the call, if there is one, has been written already
  if p.mTransactions.contains id then ((false, TxVerificationContext.empty), p)
  else
    let (ok, images) := addKeyImages txd.keptByBlock id txd.tx.vin p.mSpentKeyImages
    ((ok, { tvc with mAddedToPool := true, mVerifivationFailed := !ok }),
      { p with mTransactions := p.mTransactions.insert id txd, mSpentKeyImages := images })

/-- The pool transaction that holds a block transaction's alias makes room. -/
def dropAliasRival (env : Env) (p : TxMemoryPool) (aliasName : Blob) : TxMemoryPool :=
  if p.findAlias aliasName = nullHash then p
  else (p.takeTx env (p.findAlias aliasName)).elim p (·.2)

/-- `add_tx`, with a fresh verification context. -/
def addTx (env : Env) (now : Nat) (chain : Storage) (p : TxMemoryPool) (tx : Transaction)
    (keptByBlock : Bool) (aliasName : Blob) : Except Exn (Verdict × TxMemoryPool) :=
  let id := getTransactionHash env tx
  match checkAmounts tx.toTransactionPrefix with
  | none => .ok (refused, p)
  | some (inputsAmount, outputsAmount) =>
    let fee := inputsAmount - outputsAmount
    if ¬ keptByBlock ∧ ¬ checkNotKept env chain p tx fee then .ok (refused, p)
    else
      match chain.checkTxInputsWithId env now tx with
      | .error e => .error e
      | .ok none =>
        if keptByBlock then
          -- anyway add this transaction to pool, because it related to block
          .ok (insertTx (p.dropAliasRival env aliasName) id (details env now tx fee true none)
            { TxVerificationContext.empty with mVerifivationImpossible := true })
        else .ok (refused, p)
      | .ok (some maxUsed) =>
        -- a block's transaction is refused here as well when the pool has its alias
        let (ok, p) := p.addAliasTxPair aliasName id
        if ¬ ok then .ok (refused, p)
        else
          .ok (insertTx p id (details env now tx fee keptByBlock (some maxUsed))
            { TxVerificationContext.empty with mShouldBeRelayed := decide (0 < fee) })

/-- The three ways `add_tx` returns: it refuses and changes nothing, it files a
block's transaction whose inputs fail, or it files one whose inputs pass, its
alias first. -/
theorem addTx_cases {env : Env} {now : Nat} {chain : Storage} {p p' : TxMemoryPool}
    {tx : Transaction} {kept : Bool} {name : Blob} {v : Verdict}
    (h : p.addTx env now chain tx kept name = .ok (v, p')) :
    (v = refused ∧ p' = p) ∨
    ∃ i o, checkAmounts tx.toTransactionPrefix = some (i, o) ∧
      ((kept = true ∧ chain.checkTxInputsWithId env now tx = .ok none ∧
        (v, p') = insertTx (p.dropAliasRival env name) (getTransactionHash env tx)
          (details env now tx (i - o) true none)
          { TxVerificationContext.empty with mVerifivationImpossible := true }) ∨
      ((kept = true ∨ checkNotKept env chain p tx (i - o) = true) ∧
        (p.addAliasTxPair name (getTransactionHash env tx)).1 = true ∧
        ∃ maxUsed, chain.checkTxInputsWithId env now tx = .ok (some maxUsed) ∧
          (v, p') = insertTx (p.addAliasTxPair name (getTransactionHash env tx)).2
            (getTransactionHash env tx) (details env now tx (i - o) kept (some maxUsed))
            { TxVerificationContext.empty with mShouldBeRelayed := decide (0 < i - o) })) := by
  unfold addTx at h
  simp only at h
  split at h
  · cases h
    exact .inl ⟨rfl, rfl⟩
  · next i o hc =>
    split at h
    · cases h
      exact .inl ⟨rfl, rfl⟩
    · next hkept =>
      have hallowed : kept = true ∨ checkNotKept env chain p tx (i - o) = true := by
        by_cases hk : kept = true
        · exact .inl hk
        · exact .inr (Classical.byContradiction fun hn => hkept ⟨hk, hn⟩)
      split at h
      · cases h
      · next hin =>
        split at h
        · next hk => exact .inr ⟨i, o, hc, .inl ⟨hk, hin, (Except.ok.inj h).symm⟩⟩
        · cases h
          exact .inl ⟨rfl, rfl⟩
      · next maxUsed hin =>
        split at h
        · next hfalse =>
          refine .inl ?_
          obtain ⟨rfl, rfl⟩ := Prod.mk.inj (Except.ok.inj h)
          refine ⟨rfl, ?_⟩
          -- a pair that is refused is not written
          unfold addAliasTxPair at hfalse ⊢
          split
          · rfl
          · next hne =>
            rw [if_neg hne] at hfalse
            split
            · rfl
            · next hfree =>
              rw [if_neg hfree] at hfalse
              exact absurd rfl hfalse
        · next hok =>
          exact .inr ⟨i, o, hc, .inr ⟨hallowed, Classical.not_not.1 hok, maxUsed, hin,
            (Except.ok.inj h).symm⟩⟩

/-! ## What leaves the pool by itself -/

/-- `CURRENCY_MEMPOOL_TX_LIVETIME` and, for transactions of blocks,
`CURRENCY_MEMPOOL_TX_FROM_ALT_BLOCK_LIVETIME`. -/
def liveTime (keptByBlock : Bool) : Nat := if keptByBlock then 720 * 7 * difficultyTarget else 86400

/-- An entry that has outlived its time; its age is a `uint64_t`. -/
def isOutdated (now : Nat) (txd : TxDetails) : Bool :=
  decide ((now + 2 ^ 64 - txd.receiveTime) % 2 ^ 64 > liveTime txd.keptByBlock)

/-- The body of the loop of `remove_stuck_transactions`. -/
def removeIfStuck (env : Env) (now : Nat) (p : TxMemoryPool) (id : Hash) : TxMemoryPool :=
  match p.mTransactions[id]? with
  | none => p
  | some txd =>
    if isOutdated now txd then
      { p.removeAliasTxPair id with
        mSpentKeyImages :=
          removeKeyImages (getTransactionHash env txd.tx) txd.tx.vin p.mSpentKeyImages
        mTransactions := p.mTransactions.erase id }
    else p

/-- `remove_stuck_transactions`, with the ids in the order of the hash table. -/
def removeStuckTransactions (env : Env) (now : Nat) (order : List Hash) (p : TxMemoryPool) :
    TxMemoryPool :=
  order.foldl (removeIfStuck env now) p

/-- `remove_transaction_keyimages` with its verdict. -/
def removeTransactionKeyimages (id : Hash) :
    List Txin → Map KeyImage (Std.ExtTreeSet Hash compare) →
    Bool × Map KeyImage (Std.ExtTreeSet Hash compare)
  | [], m => (true, m)
  | .toKey _ _ kImage :: rest, m =>
    match m[kImage]? with
    | none => (false, m)
    | some set =>
      if ¬ set.contains id then (false, m)
      else
        let set := set.erase id
        removeTransactionKeyimages id rest
          (if set.isEmpty then m.erase kImage else m.insert kImage set)
  | _ :: _, m => (false, m)

/-- Its callers do not look at the verdict. -/
theorem removeTransactionKeyimages_snd (id : Hash) (vin : List Txin)
    (m : Map KeyImage (Std.ExtTreeSet Hash compare)) :
    (removeTransactionKeyimages id vin m).2 = removeKeyImages id vin m := by
  induction vin generalizing m with
  | nil => rfl
  | cons i rest ih =>
    cases i with
    | toKey _ _ kImage =>
      simp only [removeTransactionKeyimages, removeKeyImages]
      split
      · rfl
      · split
        · rfl
        · exact ih _
    | _ => rfl

end TxMemoryPool

end DarknetSpace
