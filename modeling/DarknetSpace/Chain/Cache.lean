import DarknetSpace.Chain.Rebuild

/-!
# The block cache file (`BlockCacheSerializer`, `store_blockchain`, `init`)

`store_blockchain` writes the indexes to a file, `m_blocks` is on disk anyway.
At the next start `init` reads the file back over empty containers, checks
what it says about the last block, and rebuilds the indexes of the blocks it
does not cover.

The archive is a sequence of containers, each a sequence of items. Reading a
file that ends too early throws, and `unserialize_obj_from_file` catches: what
was read until then stays. Block numbers are natural numbers as everywhere, so
the `uint32_t` that `init` resumes from does not wrap.
-/

namespace DarknetSpace

open StateExn

/-- What `BlockCacheSerializer` writes. The items of a hashed container stand in
any order. -/
structure CacheFile where
  storedLastBlockHash : Hash
  nHeight : Nat
  blocksIndex : List Hash
  transactions : List (Hash × TransactionIndex)
  spentKeys : List KeyImage
  outputs : List (UInt64 × AmountOuts)
  aliases : List (Blob × List AliasInfoBase)
  scratchpad : List Hash
  currentBlockCumulSzLimit : Nat
  currentPrunedRsHeight : Nat
  totalCount : Nat

/-- The count that ends the file. -/
def Storage.totalCount (s : Storage) : Nat :=
  s.mBlocksIndex.length + s.mTransactions.size + s.mSpentKeys.size + s.mOutputs.size +
    s.mAliases.size + s.mScratchpad.length

/-- `store_blockchain`; `none` where the serializer finds the block index wrong
and writes nothing. -/
def storeBlockchain (s : Storage) : Option CacheFile := do
  let last ← s.mBlocks.getLast?
  let lastBlockHash := indexTailId s.mBlocksIndex
  if indexHeight s.mBlocksIndex lastBlockHash ≠ some last.height then none
  else if s.mBlocksIndex.length ≠ s.mBlocks.length then none
  else
    some {
      storedLastBlockHash := lastBlockHash
      nHeight := last.height
      blocksIndex := s.mBlocksIndex
      transactions := s.mTransactions.toList
      spentKeys := s.mSpentKeys.toList
      outputs := s.mOutputs.toList
      aliases := s.mAliases.toList
      scratchpad := s.mScratchpad
      currentBlockCumulSzLimit := s.mCurrentBlockCumulSzLimit
      currentPrunedRsHeight := s.mCurrentPrunedRsHeight
      totalCount := s.totalCount }

/-- The file holds what `f` holds, its hashed containers in another order. -/
structure CacheFile.Reordered (f g : CacheFile) : Prop where
  rest : { g with transactions := f.transactions, spentKeys := f.spentKeys, outputs := f.outputs } = f
  transactions : g.transactions.Perm f.transactions
  spentKeys : g.spentKeys.Perm f.spentKeys
  outputs : g.outputs.Perm f.outputs

/-- Where a file ends: in the named part, after that many of its items. What is
left of a vector that was read in part is up to the archive. -/
inductive Cut where
  | header
  | index (items : Nat)
  | transactions (items : Nat)
  | spentKeys (items : Nat)
  | outputs (items : Nat)
  | aliases (items : Nat)
  | scratchpad (read : List Hash)
  | others
  | complete
  deriving DecidableEq

namespace BlockCacheSerializer

/-- The loader's own fields. -/
structure Loader where
  mLoaded : Bool
  mStoredLastBlockHash : Hash
  mNHeight : Nat

/-- The containers behind the block index, and whether the count at the end of
the file was there and right. -/
def loadContainers (f : CacheFile) (cut : Cut) (s : Storage) : Bool × Storage :=
  let transactions (items : List (Hash × TransactionIndex)) (s : Storage) : Storage :=
    { s with mTransactions := .ofList items }
  let spentKeys (items : List KeyImage) (s : Storage) : Storage :=
    { transactions f.transactions s with mSpentKeys := .ofList items }
  let outputs (items : List (UInt64 × AmountOuts)) (s : Storage) : Storage :=
    { spentKeys f.spentKeys s with mOutputs := .ofList items }
  let aliases (items : List (Blob × List AliasInfoBase)) (s : Storage) : Storage :=
    { outputs f.outputs s with mAliases := .ofList items }
  let scratchpad (read : List Hash) (s : Storage) : Storage :=
    { aliases f.aliases s with mScratchpad := read }
  match cut with
  | .header | .index _ => (false, s)
  | .transactions k => (false, transactions (f.transactions.take k) s)
  | .spentKeys k => (false, spentKeys (f.spentKeys.take k) s)
  | .outputs k => (false, outputs (f.outputs.take k) s)
  | .aliases k => (false, aliases (f.aliases.take k) s)
  | .scratchpad read => (false, scratchpad read s)
  | .others => (false, scratchpad f.scratchpad s)
  | .complete =>
    let s :=
      { scratchpad f.scratchpad s with
        mCurrentBlockCumulSzLimit := f.currentBlockCumulSzLimit
        mCurrentPrunedRsHeight := f.currentPrunedRsHeight }
    if s.totalCount ≠ f.totalCount then
      (false,
        { s.clearAllCacheData with mCurrentPrunedRsHeight := 0, mCurrentBlockCumulSzLimit := 0 })
    else (true, s)

/-- `BlockCacheSerializer::serialize`, loading, for a chain whose last block is
`lastBlockHash` at `nHeight`. -/
def load (f : CacheFile) (cut : Cut) (lastBlockHash : Hash) (nHeight : Nat) (s : Storage) :
    Loader × Storage :=
  match cut with
  | .header => (⟨false, lastBlockHash, nHeight⟩, s)
  | .index k =>
    (⟨false, f.storedLastBlockHash, f.nHeight⟩, { s with mBlocksIndex := f.blocksIndex.take k })
  | cut =>
    -- a higher chain's index is popped down to this one's height
    let index := f.blocksIndex.take (f.blocksIndex.length - (f.nHeight - nHeight))
    let height := min f.nHeight nHeight
    if indexHeight index f.storedLastBlockHash ≠ some height then
      (⟨false, nullHash, 2 ^ 64 - 1⟩, { s with mBlocksIndex := [] })
    else if f.storedLastBlockHash ≠ lastBlockHash ∧ s.mBlocks.length ≤ index.length then
      (⟨false, nullHash, height⟩, { s with mBlocksIndex := [] })
    else
      let (loaded, s) := loadContainers f cut { s with mBlocksIndex := index }
      (⟨loaded, f.storedLastBlockHash, height⟩, s)

end BlockCacheSerializer

/-- The index-loading part of `init`, over the blocks that are on disk. -/
def initIndexes (env : Env) (f : CacheFile) (cut : Cut) : StorageM Bool := do
  let s ← get
  match s.mBlocks.getLast? with
  | none => pure false
  | some last =>
    let hash := getBlockHash env last.bl
    let (loader, s) := BlockCacheSerializer.load f cut hash last.height s
    set s
    if ¬ loader.mLoaded then rebuildcache env 0
    else if hash ≠ loader.mStoredLastBlockHash then
      if loader.mNHeight < s.mBlocks.length - 1 then rebuildcache env (loader.mNHeight + 1)
      else rebuildcache env 0
    else pure true

end DarknetSpace
