import DarknetSpace.Lib.StateExn
import DarknetSpace.Chain.Storage

/-!
# Recording a transaction, and taking it out again

The writers of `blockchain_storage` that touch one transaction: its alias, its
key images and the spent flags they set, its place in the transaction index
and its outputs in the per-amount index. A `StorageM` computation that leaves
by an exception keeps every write it made before; the source has no other
behaviour, since none of these functions catches.

The functions are in the source's order and with its words, and each has its counterpart
that takes out what it put in. They are not quite inverse to each other: a pop takes an
alias only from a coinbase, sets flags to `false` whatever they were, and leaves through
an exception where an entry is not the last of its stack. What each of them leaves alone
is in `Frame`, what they undo in `Undo`.
-/

namespace DarknetSpace

open StateExn

/-- A member function of `blockchain_storage` that does not touch the pool. -/
abbrev StorageM := EStateM Exn Storage

/-! ## Aliases -/

/-- `m_aliases[name]`: looking an absent name up creates an empty history. -/
def aliasHistory (s : Storage) (name : Blob) : List AliasInfoBase := s.mAliases.getD name []

/-- Write `name`'s history back. -/
def Storage.setHistory (s : Storage) (name : Blob) (h : List AliasInfoBase) : Storage :=
  { s with mAliases := s.mAliases.insert name h }

/-- `pop_alias_info`. -/
def popAliasInfo (ai : AliasInfo) (s : Storage) : Bool × Storage :=
  if ai.mAlias = [] then (false, s)
  else
    let history := aliasHistory s ai.mAlias
    match history.getLast? with
    -- the empty history that the lookup made stays
    | none => (false, s.setHistory ai.mAlias history)
    | some last =>
      let addr := s.mAddrToAlias.erase last.mAddress
      let history := history.dropLast
      let addr :=
        match history.getLast? with
        -- the name has no owner left, the addresses of others keep theirs
        | none => addr
        | some prev => addr.insert prev.mAddress ai.mAlias
      (true, { s.setHistory ai.mAlias history with mAddrToAlias := addr })

/-- `put_alias_info`: a name is registered once, and updated by whoever can
sign for its latest address. -/
def putAliasInfo (env : Env) (ai : AliasInfo) (s : Storage) : Bool × Storage :=
  if ai.mAlias = [] then (false, s)
  else
    let history := aliasHistory s ai.mAlias
    let s := s.setHistory ai.mAlias history
    let record (addr : Map AccountPublicAddress Blob) : Bool × Storage :=
      (true, { s.setHistory ai.mAlias (history ++ [ai.toAliasInfoBase]) with
        mAddrToAlias := addr.insert ai.mAddress ai.mAlias })
    match history.getLast? with
    | none =>
      -- adding new alias, the name is free
      if ai.mSign = nullSig then record s.mAddrToAlias else (false, s)
    | some last =>
      if ai.mSign = nullSig then (false, s)
      else if env.checkSignature (env.hashBlob (makeTxExtraAliasEntryToSign ai))
          last.mAddress.mSpendPublicKey ai.mSign then
        -- signed by the owner so far, who loses the name
        record (s.mAddrToAlias.erase last.mAddress)
      else (false, s)

/-- `process_blockchain_tx_extra`. -/
def processBlockchainTxExtra (env : Env) (tx : Transaction) : StorageM Bool := fun s =>
  match parseAndValidateTxExtra env tx.toTransactionPrefix with
  | .error e => .error e s
  | .ok (false, _) => .ok false s
  | .ok (true, ei) =>
    if ei.mAlias.mAlias = [] then .ok true s
    else .ok (putAliasInfo env ei.mAlias s).1 (putAliasInfo env ei.mAlias s).2

/-- `unprocess_blockchain_tx_extra`: only a coinbase transaction's alias is
taken back. -/
def unprocessBlockchainTxExtra (env : Env) (tx : Transaction) : StorageM Bool := fun s =>
  if isCoinbase tx.toTransactionPrefix then
    match parseAndValidateTxExtra env tx.toTransactionPrefix with
    | .error e => .error e s
    | .ok (false, _) => .ok false s
    | .ok (true, ei) =>
      if ei.mAlias.mAlias = [] then .ok true s
      else .ok (popAliasInfo ei.mAlias s).1 (popAliasInfo ei.mAlias s).2
  else .ok true s

/-! ## The per-amount output index -/

/-- `m_outputs[amount].push_back(entry)`. -/
def pushOutput (outputs : Map UInt64 AmountOuts) (amount : UInt64)
    (entry : TransactionIndex × UInt16) : Map UInt64 AmountOuts :=
  outputs.insert amount (outputs.getD amount [] ++ [entry])

/-- The loop of `push_transaction_to_global_outs_index` from output `i` on. -/
def pushOutputs (idx : TransactionIndex) : (i : Nat) → List TxOut → Map UInt64 AmountOuts →
    Map UInt64 AmountOuts × List Nat
  | _, [], outputs => (outputs, [])
  | i, o :: rest, outputs =>
    let (outputs', gs) := pushOutputs idx (i + 1) rest
      (pushOutput outputs o.amount (idx, UInt16.ofNat i))
    (outputs', (outputs.getD o.amount []).length :: gs)

/-- `push_transaction_to_global_outs_index`: the verdict and the global output
indexes. The position is looked up for every output, but nothing in the loop
changes it. -/
def pushTransactionToGlobalOutsIndex (tx : Transaction) (txId : Hash) (s : Storage) :
    Bool × List Nat × Storage :=
  match s.mTransactions[txId]? with
  | some idx =>
    let (outputs, gs) := pushOutputs idx 0 tx.vout s.mOutputs
    (true, gs, { s with mOutputs := outputs })
  | none => (decide (tx.vout = []), [], s)

/-- Drop the last entry of an amount's outputs, and the amount with its last
entry. -/
def popOutput (outputs : Map UInt64 AmountOuts) (amount : UInt64) (outs : AmountOuts) :
    Map UInt64 AmountOuts :=
  if outs.dropLast = [] then outputs.erase amount else outputs.insert amount outs.dropLast

/-- The loop of `pop_transaction_from_global_index`, over the outputs with
their numbers, last first. `back()` is called before the size is checked. -/
def popOutputs (env : Env) (txId : Hash) : List (TxOut × Nat) → StorageM Bool
  | [] => pure true
  | (o, i) :: rest => fun s =>
    match s.mOutputs[o.amount]? with
    | none => .ok false s
    | some outs =>
      match outs.getLast? with
      | none => .error .undefinedBehaviour s
      | some (idx, n) =>
        match s.transactionByIndex idx with
        | .error e => .error e s
        | .ok txe =>
          if getTransactionHash env txe.tx ≠ txId then .ok false s
          else if n.toNat ≠ i then .ok false s
          else popOutputs env txId rest { s with mOutputs := popOutput s.mOutputs o.amount outs }

/-- `pop_transaction_from_global_index`. -/
def popTransactionFromGlobalIndex (env : Env) (tx : Transaction) (txId : Hash) : StorageM Bool :=
  popOutputs env txId tx.vout.zipIdx.reverse

/-! ## Key images and spent flags -/

/-- Write one output's spent flag inside `m_blocks`. -/
def setSpentFlag (blocks : List BlockEntry) (idx : TransactionIndex) (out : Nat) (spent : Bool) :
    List BlockEntry :=
  blocks.modify idx.block fun e =>
    { e with transactions := e.transactions.modify idx.transaction.toNat fun t =>
        { t with mSpentFlags := t.mSpentFlags.set out spent } }

/-- `update_spent_tx_flags_for_input`. -/
def updateSpentTxFlagsForInput (env : Env) (amount globalIndex : UInt64) (spent : Bool) :
    StorageM Bool := fun s =>
  match (s.mOutputs.getD amount [])[globalIndex.toNat]? with
  | none => .ok false s
  | some (idx, out) =>
    match s.transactionByIndex idx with
    | .error e => .error e s
    | .ok txe =>
      if s.mTransactions.contains (getTransactionHash env txe.tx) then
        if out.toNat < txe.mSpentFlags.length then
          .ok true { s with mBlocks := setSpentFlag s.mBlocks idx out.toNat spent }
        else .ok false s
      else .ok false s

/-- `if(in.key_offsets.size() == 1)`: a direct spend marks its output. -/
def updateFlagsOfDirectSpend (env : Env) (amount : UInt64) (keyOffsets : List UInt64)
    (spent : Bool) : StorageM Bool :=
  match keyOffsets with
  | [globalIndex] => updateSpentTxFlagsForInput env amount globalIndex spent
  | _ => pure true

/-- `add_transaction_input_visitor`. -/
def addTransactionInput (env : Env) : Txin → StorageM Bool
  | .toKey amount keyOffsets kImage => fun s =>
    if s.mSpentKeys.contains kImage then .ok false s
    else updateFlagsOfDirectSpend env amount keyOffsets true
      { s with mSpentKeys := s.mSpentKeys.insert kImage }
  | .gen _ => pure true
  | .toScript .. => pure false
  | .toScripthash .. => pure false

/-- `BOOST_FOREACH(const txin_v& in, tx.vin)` up to the first refused input. -/
def addTransactionInputs (env : Env) : List Txin → StorageM Bool
  | [] => pure true
  | i :: rest => do
    let r ← addTransactionInput env i
    if r then addTransactionInputs env rest else pure false

/-- `purge_transaction_visitor`. -/
def purgeTransactionInput (env : Env) (strictCheck : Bool) : Txin → StorageM Bool
  | .toKey amount keyOffsets kImage => fun s =>
    if ¬ s.mSpentKeys.contains kImage ∧ strictCheck then .ok false s
    else updateFlagsOfDirectSpend env amount keyOffsets false
      { s with mSpentKeys := s.mSpentKeys.erase kImage }
  | .gen _ => pure true
  | .toScript .. => pure false
  | .toScripthash .. => pure false

/-- `purge_transaction_keyimages_from_blockchain` from one input on. -/
def purgeTransactionInputs (env : Env) (strictCheck : Bool) : List Txin → StorageM Bool
  | [] => pure true
  | i :: rest => do
    let r ← purgeTransactionInput env strictCheck i
    -- without the strict check a failed input does not end the loop
    if strictCheck && !r then pure false else purgeTransactionInputs env strictCheck rest

/-- `purge_transaction_keyimages_from_blockchain`. -/
def purgeTransactionKeyimagesFromBlockchain (env : Env) (tx : Transaction) (strictCheck : Bool) :
    StorageM Bool :=
  purgeTransactionInputs env strictCheck tx.vin

/-! ## One transaction of a block -/

/-- `add_transaction_from_block`: the entry to keep in the block, `none` where
the source returns `false`. -/
def addTransactionFromBlock (env : Env) (tx : Transaction) (txId : Hash) (blHeight : Nat)
    (txIndex : UInt16) : StorageM (Option TransactionEntry) := do
  let r ← processBlockchainTxExtra env tx
  if r then
    let r ← addTransactionInputs env tx.vin
    if r then
      let s ← get
      if s.mTransactions.contains txId then
        let _ ← purgeTransactionKeyimagesFromBlockchain env tx true
        let _ ← unprocessBlockchainTxExtra env tx
        pure none
      else
        let s := { s with
          mTransactions := s.mTransactions.insert txId { block := blHeight, transaction := txIndex } }
        let (r, globalIndexes, s) := pushTransactionToGlobalOutsIndex tx txId s
        set s
        pure (if r then
          some
            { tx
              mKeeperBlockHeight := blHeight
              mGlobalOutputIndexes := globalIndexes
              mSpentFlags := List.replicate tx.vout.length false }
          else none)
    else
      -- the key images that were in the set before the call go as well
      let _ ← purgeTransactionKeyimagesFromBlockchain env tx false
      let _ ← unprocessBlockchainTxExtra env tx
      pure none
  else pure none

/-! ## The scratchpad -/

/-- `push_block_scratchpad_data(bl, m_scratchpad)`. -/
def appendScratchpad (env : Env) (bl : Block) : StorageM PUnit := fun s =>
  match pushBlockScratchpadData env bl s.mScratchpad with
  | .ok pad => .ok ⟨⟩ { s with mScratchpad := pad }
  | .error e => .error e s

theorem appendScratchpad_of_ok {env : Env} {bl : Block} {s : Storage} {pad : List Hash}
    (h : pushBlockScratchpadData env bl s.mScratchpad = .ok pad) :
    appendScratchpad env bl s = .ok ⟨⟩ { s with mScratchpad := pad } := by
  rw [appendScratchpad, h]

theorem appendScratchpad_of_error {env : Env} {bl : Block} {s : Storage} {e : Exn}
    (h : pushBlockScratchpadData env bl s.mScratchpad = .error e) :
    appendScratchpad env bl s = .error e s := by
  rw [appendScratchpad, h]

end DarknetSpace
