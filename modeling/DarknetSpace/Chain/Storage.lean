import DarknetSpace.Format.Scratchpad

/-!
# The state of `blockchain_storage` and its readers

The main chain `m_blocks` keeps each block with its transactions; everything
else the node looks things up by is an index over it: block ids, transaction
positions, spent key images, outputs by amount, aliases, the scratchpad. They
are written separately, so nothing in the type ties them to `m_blocks`; what
ties them is proved later.

`m_blocks` is a `SwappedVector`, whose `operator[]` throws past the end; it is
an ideal vector here, its paging to disk left out. Block numbers inside
`TransactionIndex` are natural numbers (the source's `uint32_t` is wide enough
for any chain with fewer than `2^32` blocks), transaction and output numbers
are `uint16_t` and wrap.
-/

namespace DarknetSpace

/-- `transaction_chain_entry`. -/
structure TransactionEntry where
  tx : Transaction
  mKeeperBlockHeight : Nat
  mGlobalOutputIndexes : List Nat
  mSpentFlags : List Bool
  deriving DecidableEq

/-- `BlockEntry`. -/
structure BlockEntry where
  bl : Block
  height : Nat
  blockCumulativeSize : Nat
  cumulativeDifficulty : Nat
  alreadyGeneratedCoins : UInt64
  alreadyDonatedCoins : UInt64
  scratchOffset : Nat
  transactions : List TransactionEntry
  deriving DecidableEq

structure TransactionIndex where
  block : Nat
  transaction : UInt16
  deriving DecidableEq

/-! ## Checkpoints (`checkpoints.cpp`) -/

/-- `m_points`. -/
abbrev Checkpoints := Map Nat Hash

/-- Some checkpoint is at `height` or above. -/
def Checkpoints.isInCheckpointZone (points : Checkpoints) (height : Nat) : Bool :=
  points.keys.any (height ≤ ·)

/-- The first checkpoint at `height` or above is not above the last block. -/
def Checkpoints.isHeightPassedZone (points : Checkpoints) (height blockchainLastBlockHeight : Nat) :
    Bool :=
  decide (height ≤ blockchainLastBlockHeight) &&
    points.keys.any fun p => decide (height ≤ p) && decide (p ≤ blockchainLastBlockHeight)

def Checkpoints.checkBlock (points : Checkpoints) (height : Nat) (h : Hash) : Bool :=
  match points[height]? with
  | none => true
  | some p => p == h

/-! ## The containers -/

/-- Where the outputs of one amount are, in the order they appeared. -/
abbrev AmountOuts := List (TransactionIndex × UInt16)

structure Storage where
  mBlocks : List BlockEntry
  mBlocksIndex : List Hash
  mTransactions : Map Hash TransactionIndex
  mSpentKeys : Std.ExtTreeSet KeyImage compare
  mOutputs : Map UInt64 AmountOuts
  mAliases : Map Blob (List AliasInfoBase)
  mAddrToAlias : Map AccountPublicAddress Blob
  mScratchpad : List Hash
  mAlternativeChains : Map Hash BlockEntry
  mInvalidBlocks : Map Hash BlockEntry
  mCurrentBlockCumulSzLimit : Nat
  mCurrentPrunedRsHeight : Nat
  mIsInCheckpointZone : Bool
  mCheckpoints : Checkpoints

/-- A storage that has not seen a block. -/
def Storage.empty (checkpoints : Checkpoints) : Storage where
  mBlocks := []
  mBlocksIndex := []
  mTransactions := ∅
  mSpentKeys := ∅
  mOutputs := ∅
  mAliases := ∅
  mAddrToAlias := ∅
  mScratchpad := []
  mAlternativeChains := ∅
  mInvalidBlocks := ∅
  mCurrentBlockCumulSzLimit := 0
  mCurrentPrunedRsHeight := 0
  mIsInCheckpointZone := false
  mCheckpoints := checkpoints

/-! ## `BlockIndex` -/

/-- `BlockIndex::push`: refuses an id it already has. -/
def indexPush (index : List Hash) (h : Hash) : Bool × List Hash :=
  if h ∈ index then (false, index) else (true, index ++ [h])

/-- `BlockIndex::getBlockHeight`; `none` is `HEIGHT_NOT_FOUND`. -/
def indexHeight (index : List Hash) (h : Hash) : Option Nat := index.idxOf? h

/-- `BlockIndex::getTailId`. -/
def indexTailId (index : List Hash) : Hash := index.getLast?.getD nullHash

namespace Storage

/-! ## Reading the chain -/

/-- `m_blocks[i]`. -/
def blockAt (s : Storage) (i : Nat) : Except Exn BlockEntry :=
  match s.mBlocks[i]? with
  | some e => .ok e
  | none => .error .indexOverflow

/-- `transactionByIndex`: past the chain it throws, past the block's own
transactions it reads outside a vector. -/
def transactionByIndex (s : Storage) (i : TransactionIndex) : Except Exn TransactionEntry := do
  let e ← s.blockAt i.block
  match e.transactions[i.transaction.toNat]? with
  | some t => return t
  | none => throw .undefinedBehaviour

/-- `get_current_blockchain_height()`. -/
def getCurrentBlockchainHeight (s : Storage) : Nat := s.mBlocks.length

/-- `get_top_block_id()`. -/
def getTopBlockId (env : Env) (s : Storage) : Hash :=
  match s.mBlocks.getLast? with
  | some e => getBlockHash env e.bl
  | none => nullHash

def haveTx (s : Storage) (id : Hash) : Bool := s.mTransactions.contains id

def haveTxKeyimgAsSpent (s : Storage) (ki : KeyImage) : Bool := s.mSpentKeys.contains ki

def haveBlock (s : Storage) (id : Hash) : Bool :=
  decide (id ∈ s.mBlocksIndex) || s.mAlternativeChains.contains id || s.mInvalidBlocks.contains id

/-! ## Windows over the main chain -/

/-- The entries `get_difficulty_for_next_block` reads: the last
`DIFFICULTY_BLOCKS_COUNT` of them, never the genesis block. -/
def difficultyBlocks (blocks : List BlockEntry) : List BlockEntry :=
  let offset := blocks.length - min blocks.length difficultyBlocksCount
  blocks.drop (if offset = 0 then 1 else offset)

def getDifficultyForNextBlock (blocks : List BlockEntry) : Nat :=
  nextDifficulty ((difficultyBlocks blocks).map (·.bl.timestamp))
    ((difficultyBlocks blocks).map (·.cumulativeDifficulty))

/-- `check_block_timestamp`. -/
def checkBlockTimestamp (timestamps : List UInt64) (b : Block) : Bool :=
  if timestamps.length < blockchainTimestampCheckWindow then true
  else decide (¬ b.timestamp < median timestamps)

/-- `check_block_timestamp_main`. -/
def checkBlockTimestampMain (now : Nat) (blocks : List BlockEntry) (b : Block) : Bool :=
  if b.timestamp.toNat > now + currencyBlockFutureTimeLimit then false
  else
    checkBlockTimestamp
      ((blocks.drop (blocks.length - blockchainTimestampCheckWindow)).map (·.bl.timestamp)) b

/-- `get_last_n_blocks_sizes(sz, CURRENCY_REWARD_BLOCKS_WINDOW)`. -/
def lastBlocksSizes (blocks : List BlockEntry) : List Nat :=
  (blocks.drop (blocks.length - currencyRewardBlocksWindow)).map (·.blockCumulativeSize)

/-- `update_next_comulative_size_limit`. -/
def updateNextComulativeSizeLimit (s : Storage) : Storage :=
  let m := median (lastBlocksSizes s.mBlocks)
  let zone := getBlockGrantedFullRewardZone s.getCurrentBlockchainHeight
  { s with mCurrentBlockCumulSzLimit := (if m ≤ zone then zone else m) * 2 }

end Storage

/-! ## Judging a miner transaction -/

/-- `prevalidate_miner_transaction`. -/
def prevalidateMinerTransaction (b : Block) (height : Nat) : Bool :=
  match b.minerTx.vin with
  | [.gen h] =>
    decide (h.toNat = height) &&
      decide (b.minerTx.unlockTime.toNat = height + currencyMinedMoneyUnlockWindow) &&
      checkOutsOverflow b.minerTx.toTransactionPrefix
  | _ => false

/-- The key of an output, if it is `txout_to_key`. -/
def TxOut.key? (o : TxOut) : Option PublicKey :=
  match o.target with
  | .toKey key _ => some key
  | _ => none

/-- `lookfor_donation`: the donation and the royalty, `none` where the source
returns `false`. -/
def lookforDonation (env : Env) (tx : Transaction) : Except Exn (Option (UInt64 × UInt64)) := do
  let (r, info) ← parseAndValidateTxExtra env tx.toTransactionPrefix
  if ¬ r then return none
  let n := tx.vout.length
  let paid (acc : AccountKeys) (i : Nat) : Option UInt64 :=
    -- `none`: the output is not `txout_to_key`
    match tx.vout[i]? with
    | none => none
    | some o => o.key?.map fun key =>
      if env.isOutToAcc acc key info.mTxPubKey i then o.amount else 0
  let mut donation : UInt64 := 0
  if 2 ≤ n then
    match paid env.donationsAccount (n - 2) with
    | none => return none
    | some d => donation := d
  if n = 0 then return some (donation, 0)
  if donation ≠ 0 then
    return (paid env.royaltyAccount (n - 1)).map fun royalty => (donation, royalty)
  else
    return (paid env.donationsAccount (n - 1)).map fun d => (d, 0)

/-- `validate_miner_transaction`: the base reward and the donations of the
block, `none` where the source returns `false`. -/
def validateMinerTransaction (env : Env) (blocks : List BlockEntry) (b : Block)
    (cumulativeBlockSize : Nat) (fee alreadyGeneratedCoins : UInt64) :
    Except Exn (Option (UInt64 × UInt64)) := do
  let moneyInUse := getOutsMoneyAmount b.minerTx.toTransactionPrefix
  let h := (getBlockHeight b).toNat
  let donations ←
    if h ≥ currencyDonationsStartBlockno then lookforDonation env b.minerTx
    else pure (some (0, 0))
  match donations with
  | none => return none
  | some (donation, royalty) =>
    match getBlockReward (median (Storage.lastBlocksSizes blocks)) cumulativeBlockSize
        alreadyGeneratedCoins h with
    | none => return none
    | some baseReward =>
      if h ≥ currencyDonationsStartBlockno ∧ baseReward ≠ 10 * (donation + royalty) then
        return none
      if baseReward + fee ≠ moneyInUse then return none
      return some (baseReward, royalty + donation)

end DarknetSpace
