import DarknetSpace.Chain.Rebuild
import DarknetSpace.Pool.TxPool

/-!
# The node: chain and pool together; taking a block out

`blockchain_storage` holds a reference to the pool and writes to both. The
undo of a block, `purge_block_data_from_blockchain`, reads each transaction
back *through the index into `m_blocks`*, so it works on a block that is in
`m_blocks` and throws on one that is not there yet.

`popLog` is a history variable: the chain as each call of
`pop_block_from_blockchain` found it. Nothing reads it; statements about whole
runs use it to speak of the pops inside them.

`onChain` embeds a computation on the chain, so that it leaves the pool alone by its
type. The undo of a block is here because both the push and the pop end in it.
-/

namespace DarknetSpace

open StateExn

structure Node where
  chain : Storage
  pool : TxMemoryPool
  popLog : List Storage

abbrev NodeM := EStateM Exn Node

/-- A chain-only function, called on the node. -/
def onChain {α : Type} (x : StorageM α) : NodeM α :=
  zoom (·.chain) (fun n c => { n with chain := c }) x

/-- A read of the chain that may throw. -/
def readChain {α : Type} (f : Storage → Except Exn α) : NodeM α := reads fun n => f n.chain

section

variable {α : Type} {n : Node} {a : α} {e : Exn} {s : Storage}

theorem onChain_of_ok {x : StorageM α} (h : x n.chain = .ok a s) :
    onChain x n = .ok a { n with chain := s } := zoom_of_ok h

theorem onChain_of_error {x : StorageM α} (h : x n.chain = .error e s) :
    onChain x n = .error e { n with chain := s } := zoom_of_error h

@[simp] theorem onChain_modify (f : Storage → Storage) (n : Node) :
    onChain (modify f) n = .ok ⟨⟩ { n with chain := f n.chain } := rfl

theorem readChain_of_ok {f : Storage → Except Exn α} (h : f n.chain = .ok a) :
    readChain f n = .ok a n := reads_of_ok h

theorem readChain_of_error {f : Storage → Except Exn α} (h : f n.chain = .error e) :
    readChain f n = .error e n := reads_of_error h

end

/-- `m_tx_pool.add_tx(tx, tvc, true)`: the verdict is not looked at by any
caller in the chain. -/
def returnToPool (env : Env) (now : Nat) (tx : Transaction) : NodeM PUnit := fun n =>
  match n.pool.addTx env now n.chain tx true [] with
  | .ok (_, pool) => .ok ⟨⟩ { n with pool }
  | .error e => .error e n

/-- `if(!is_coinbase(tx))`: the coinbase is not given back. -/
def returnOrdinaryToPool (env : Env) (now : Nat) (tx : Transaction) : NodeM PUnit :=
  if isCoinbase tx.toTransactionPrefix then pure ⟨⟩ else returnToPool env now tx

/-- `purge_transaction_from_blockchain`. -/
def purgeTransactionFromBlockchain (env : Env) (now : Nat) (txId : Hash) : NodeM Bool := do
  let n ← get
  match n.chain.mTransactions[txId]? with
  | none => pure false
  | some idx =>
    let txe ← readChain (·.transactionByIndex idx)
    let _ ← onChain (purgeTransactionKeyimagesFromBlockchain env txe.tx true)
    let r ← onChain (unprocessBlockchainTxExtra env txe.tx)
    if r then
      -- its key images are out by now, its outputs and its index entry are not
      returnOrdinaryToPool env now txe.tx
      let res ← onChain (popTransactionFromGlobalIndex env txe.tx txId)
      modify fun n => { n with chain :=
        { n.chain with mTransactions := n.chain.mTransactions.erase txId } }
      pure res
    else pure false

/-- Purge one after another, whatever each of them returns. -/
def purgeTransactions (env : Env) (now : Nat) : List Hash → NodeM Bool
  | [] => pure true
  | id :: rest => do
    let r ← purgeTransactionFromBlockchain env now id
    let rs ← purgeTransactions env now rest
    pure (r && rs)

/-- `purge_block_data_from_blockchain`: the processed transactions, last first,
then the coinbase. -/
def purgeBlockDataFromBlockchain (env : Env) (now : Nat) (bl : Block) (processedTxCount : Nat) :
    NodeM Bool :=
  if bl.txHashes.length < processedTxCount then pure false
  else
    purgeTransactions env now
      ((bl.txHashes.take processedTxCount).reverse ++ [getTransactionHash env bl.minerTx])

/-- `pop_block_from_blockchain`. -/
def popBlockFromBlockchain (env : Env) (now : Nat) : NodeM Bool := do
  modify fun n => { n with popLog := n.popLog ++ [n.chain] }
  let n ← get
  match n.chain.mBlocks.getLast? with
  | none => pure false
  | some bei =>
    if n.chain.mBlocks.length ≤ 1 then pure false
    else
      let (_, scratchpad) ← readChain fun s => popBlockScratchpadData env bei.bl s.mScratchpad
      -- the scratchpad is cut first, and stays cut whatever the rest returns
      modify fun n => { n with chain := { n.chain with mScratchpad := scratchpad } }
      let r ← purgeBlockDataFromBlockchain env now bei.bl bei.bl.txHashes.length
      if ¬ r then pure false
      else
        let n ← get
        if indexTailId n.chain.mBlocksIndex ≠ getBlockHash env bei.bl then pure false
        else
          modify fun n => { n with chain :=
            { n.chain with
              mBlocksIndex := n.chain.mBlocksIndex.dropLast
              mBlocks := n.chain.mBlocks.dropLast } }
          pure true

end DarknetSpace
