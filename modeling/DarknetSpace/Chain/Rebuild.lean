import DarknetSpace.Chain.Ledger

/-!
# Rebuilding the indexes from the blocks (`clear_all_cache_data`, `rebuildcache`)

The second implementation of what a pushed block writes: one pass over
`m_blocks` that fills every index. Its loops over a block's transactions and a
transaction's outputs count in `uint16_t`, so at 65536 of either the counter
comes back to zero and the loop does not end.

A rebuild is run when the cache file is missing, or is not of the chain on disk. A loop
that does not end is an exception of its own here, so that a chain with such a block is
no chain that can be rebuilt. What a rebuild gives is compared with what pushes have
left in `Core/Rebuilt`.
-/

namespace DarknetSpace

open StateExn

/-- `clear_all_cache_data`. -/
def Storage.clearAllCacheData (s : Storage) : Storage :=
  { s with
    mTransactions := ∅
    mSpentKeys := ∅
    mBlocksIndex := []
    mAlternativeChains := ∅
    mOutputs := ∅
    mScratchpad := []
    mAliases := ∅
    mAddrToAlias := ∅ }

/-- The key images of a transaction's `txin_to_key` inputs. -/
def keyImages (vin : List Txin) : List KeyImage :=
  vin.filterMap fun
    | .toKey _ _ kImage => some kImage
    | _ => none

/-- One transaction of `rebuildcache`; `false` breaks the loop over the block's
transactions. -/
def rebuildTransaction (env : Env) (b t : Nat) (tx : Transaction) : StorageM Bool := do
  let r ← processBlockchainTxExtra env tx
  if r then
    -- `uint16_t i` never reaches the size
    if 65536 ≤ tx.vout.length then throw .endless
    else
      let idx : TransactionIndex := { block := b, transaction := UInt16.ofNat t }
      modify fun s =>
        { s with
          mTransactions := s.mTransactions.insertIfNew (getTransactionHash env tx) idx
          mSpentKeys := s.mSpentKeys.insertMany (keyImages tx.vin)
          mOutputs := (pushOutputs idx 0 tx.vout s.mOutputs).1 }
      pure true
  else pure false

/-- `for (uint16_t t = 0; t < block.transactions.size(); ++t)`. -/
def rebuildTransactions (env : Env) (b : Nat) : Nat → List TransactionEntry → StorageM PUnit
  | t, [] => if 65535 < t then throw .endless else pure ()
  | t, e :: rest =>
    if 65535 < t then throw .endless
    else do
      let r ← rebuildTransaction env b t e.tx
      -- a refused extra field leaves the loop over this block, not the rebuild
      if r then rebuildTransactions env b (t + 1) rest else pure ()

/-- One block of `rebuildcache`. -/
def rebuildBlock (env : Env) (b : Nat) (e : BlockEntry) : StorageM PUnit := do
  modify fun s => { s with mBlocksIndex := (indexPush s.mBlocksIndex (getBlockHash env e.bl)).2 }
  rebuildTransactions env b 0 e.transactions
  appendScratchpad env e.bl

def rebuildBlocks (env : Env) : Nat → List BlockEntry → StorageM PUnit
  | _, [] => pure ()
  | b, e :: rest => do
    rebuildBlock env b e
    rebuildBlocks env (b + 1) rest

/-- `rebuildcache`. -/
def rebuildcache (env : Env) (startHeight : Nat) : StorageM Bool := do
  let s ← get
  rebuildBlocks env startHeight (s.mBlocks.drop startHeight)
  pure true

/-- The ids of the blocks the index has not got yet, pushed one after another. -/
def indexMissing (env : Env) (index : List Hash) (blocks : List BlockEntry) : List Hash :=
  blocks.foldl (fun i e => (indexPush i (getBlockHash env e.bl)).2) index

/-- `fix_blocks_index`. -/
def fixBlocksIndex (env : Env) : StorageM Bool := do
  let s ← get
  if s.mBlocksIndex.length = s.mBlocks.length then pure true
  else if s.mBlocks.length < s.mBlocksIndex.length then
    set { s with mBlocksIndex := s.mBlocksIndex.take s.mBlocks.length }
    pure true
  else
    let index := indexMissing env s.mBlocksIndex (s.mBlocks.drop s.mBlocksIndex.length)
    set { s with mBlocksIndex := index }
    if index.length = s.mBlocks.length then pure true
    else
      -- a block twice in the chain: everything is built again, and the index ends as short as
      -- before
      modify Storage.clearAllCacheData
      rebuildcache env 0

end DarknetSpace
