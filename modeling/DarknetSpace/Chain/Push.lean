import DarknetSpace.Chain.Node

/-!
# Extending the main chain (`handle_block_to_main_chain`)

The function in its three parts: the checks on the header, which write nothing
but the checkpoint-zone flag; the transactions, taken from the pool and
recorded one by one; and the coinbase check with the final writes. Every exit
of the last two parts goes through `purge_block_data_from_blockchain`.

The parts are functions of their own here (`checkBlockHeader`, `takeTransactions`,
`finishBlock`), in the order and with the exits of the source, so that what is proved of
a push can be proved part by part. `TakenTx` is what the second part gathers for each
transaction: its entry, its size and its fee. The exits hand the node over with whatever
has been written, since `purge_block_data_from_blockchain` may itself fail.
-/

namespace DarknetSpace

open StateExn

structure BlockVerificationContext where
  mAddedToMainChain : Bool
  mVerifivationFailed : Bool
  mMarkedAsOrphaned : Bool
  mAlreadyExists : Bool
  deriving DecidableEq

def BlockVerificationContext.empty : BlockVerificationContext := ⟨false, false, false, false⟩

/-- What a block handler returned, and the context it filled in. -/
abbrev BlockVerdict := Bool × BlockVerificationContext

namespace BlockVerdict

def added : BlockVerdict := (true, { BlockVerificationContext.empty with mAddedToMainChain := true })
def failed : BlockVerdict :=
  (false, { BlockVerificationContext.empty with mVerifivationFailed := true })
/-- `return false` with the context left alone. -/
def refused : BlockVerdict := (false, BlockVerificationContext.empty)

end BlockVerdict

/-- `add_block_as_invalid(bl, h)`. -/
def addBlockAsInvalid (h : Hash) (bei : BlockEntry) (s : Storage) : Storage :=
  { s with mInvalidBlocks := s.mInvalidBlocks.insertIfNew h bei }

/-- A value-initialised `BlockEntry` with its block set. -/
def BlockEntry.ofBlock (bl : Block) : BlockEntry where
  bl
  height := 0
  blockCumulativeSize := 0
  cumulativeDifficulty := 0
  alreadyGeneratedCoins := 0
  alreadyDonatedCoins := 0
  scratchOffset := 0
  transactions := []

/-! ## The header -/

/-- The proof of work of a block on top of the main chain. -/
def mainChainProofOfWork (env : Env) (s : Storage) (bl : Block) : Hash :=
  env.longhash bl s.mBlocks.length fun i =>
    (s.mScratchpad[i % s.mScratchpad.length]?).getD nullHash

/-- The checks before the first write: the verdict of the first one that
fails. -/
def checkBlockHeader (env : Env) (now : Nat) (s : Storage) (bl : Block) : Option BlockVerdict :=
  if bl.prevId ≠ s.getTopBlockId env then some .refused
  -- no block is remembered as invalid before its proof of work was looked at
  else if ¬ Storage.checkBlockTimestampMain now s.mBlocks bl then some .failed
  else if Storage.getDifficultyForNextBlock s.mBlocks = 0 then some .refused
  else if ¬ env.checkHash (mainChainProofOfWork env s bl)
      (Storage.getDifficultyForNextBlock s.mBlocks) then some .failed
  else none

/-- `m_is_in_checkpoint_zone`, as it is set for a block at `height`. -/
def Storage.setCheckpointZone (s : Storage) (height : Nat) : Storage :=
  { s with mIsInCheckpointZone := s.mCheckpoints.isInCheckpointZone height }

/-- The checkpoint and the form of the coinbase. -/
def checkBlockForm (s : Storage) (bl : Block) (id : Hash) (height : Nat) : Bool :=
  (!s.mIsInCheckpointZone || s.mCheckpoints.checkBlock height id)
    && prevalidateMinerTransaction bl height

/-! ## The transactions -/

/-- The transaction as it enters the block: under checkpoints, ring signatures
are pruned. -/
def prunedTx (zone : Bool) (tx : Transaction) : Transaction :=
  if zone then { tx with signatures := [] } else tx

/-- What one transaction of a block adds up to. -/
structure TakenTx where
  entry : TransactionEntry
  fee : UInt64
  blobSize : Nat

/-- The loop over `bl.tx_hashes`, from the transaction after `taken` on; `none`
where the source returns `false`. -/
def takeTransactions (env : Env) (now : Nat) (bl : Block) (id : Hash) :
    (processed : Nat) → List Hash → NodeM (Option (List TakenTx))
  | _, [] => pure (some [])
  | processed, txId :: rest => do
    let n ← get
    match n.pool.takeTx env txId with
    | none =>
      let _ ← purgeBlockDataFromBlockchain env now bl processed
      pure none
    | some (txd, pool) =>
      set { n with pool }
      let tx := prunedTx n.chain.mIsInCheckpointZone txd.tx
      match ← readChain (·.checkTxInputs env now tx) with
      | none =>
        -- wrong inputs: the transaction goes back, and the block is refused by its id from now on
        returnToPool env now tx
        let _ ← purgeBlockDataFromBlockchain env now bl processed
        onChain (modify (addBlockAsInvalid id (BlockEntry.ofBlock bl)))
        pure none
      | some _ =>
        match ← onChain (addTransactionFromBlock env tx txId n.chain.mBlocks.length
            (UInt16.ofNat (processed + 1))) with
        | none =>
          -- the chain would not take it: no entry in `m_invalid_blocks` here
          returnToPool env now tx
          let _ ← purgeBlockDataFromBlockchain env now bl processed
          pure none
        | some entry =>
          match ← takeTransactions env now bl id (processed + 1) rest with
          | none => pure none
          | some taken => pure (some ({ entry, fee := txd.fee, blobSize := txd.blobSize } :: taken))

def feeSummary (taken : List TakenTx) : UInt64 := taken.foldl (fun s t => s + t.fee) 0

def cumulativeBlockSize (env : Env) (bl : Block) (taken : List TakenTx) : Nat :=
  getObjectBlobsize env bl.minerTx.toTransactionPrefix + (taken.map (·.blobSize)).sum

/-! ## The coinbase amount and the final writes -/

/-- Totals of the chain so far. -/
def alreadyGeneratedCoins (blocks : List BlockEntry) : UInt64 :=
  blocks.getLast?.elim 0 (·.alreadyGeneratedCoins)
def alreadyDonatedCoins (blocks : List BlockEntry) : UInt64 :=
  blocks.getLast?.elim 0 (·.alreadyDonatedCoins)
def cumulativeDifficulty (blocks : List BlockEntry) : Nat :=
  blocks.getLast?.elim 0 (·.cumulativeDifficulty)

/-- The entry `handle_block_to_main_chain` pushes. -/
def newBlockEntry (env : Env) (s : Storage) (bl : Block) (coinbase : TransactionEntry)
    (taken : List TakenTx) (baseReward donationTotal : UInt64) : BlockEntry where
  bl
  height := s.mBlocks.length
  blockCumulativeSize := cumulativeBlockSize env bl taken
  cumulativeDifficulty :=
    -- `wide_difficulty_type` has 128 bits
    (Storage.getDifficultyForNextBlock s.mBlocks + cumulativeDifficulty s.mBlocks) % 2 ^ 128
  alreadyGeneratedCoins := alreadyGeneratedCoins s.mBlocks + baseReward
  alreadyDonatedCoins := alreadyDonatedCoins s.mBlocks + donationTotal
  scratchOffset := s.mScratchpad.length
  transactions := coinbase :: taken.map (·.entry)

/-- The writes that append the block; its id is new to the index. -/
def appendBlock (env : Env) (id : Hash) (bei : BlockEntry) : StorageM PUnit := do
  modify fun s => { s with mBlocksIndex := s.mBlocksIndex ++ [id] }
  appendScratchpad env bei.bl
  modify fun s => { s with mBlocks := s.mBlocks ++ [bei] }
  let _ ← fixBlocksIndex env
  modify Storage.updateNextComulativeSizeLimit

/-- From `validate_miner_transaction` to the end. -/
def finishBlock (env : Env) (now : Nat) (bl : Block) (id : Hash) (coinbase : TransactionEntry)
    (taken : List TakenTx) : NodeM BlockVerdict := do
  match ← readChain fun s => validateMinerTransaction env s.mBlocks bl
      (cumulativeBlockSize env bl taken) (feeSummary taken) (alreadyGeneratedCoins s.mBlocks) with
  | none =>
    let _ ← purgeBlockDataFromBlockchain env now bl taken.length
    pure .failed
  | some (baseReward, donationTotal) =>
    let n ← get
    -- the index refuses an id it has; the transactions are in the chain by now and come out again
    if id ∈ n.chain.mBlocksIndex then
      let _ ← purgeBlockDataFromBlockchain env now bl taken.length
      pure .failed
    else
      onChain (appendBlock env id
        (newBlockEntry env n.chain bl coinbase taken baseReward donationTotal))
      pure .added

/-- The part of `handle_block_to_main_chain` behind the header checks. -/
def connectBlock (env : Env) (now : Nat) (bl : Block) (id : Hash) : NodeM BlockVerdict := do
  let n ← get
  match ← onChain (addTransactionFromBlock env bl.minerTx (getTransactionHash env bl.minerTx)
      n.chain.mBlocks.length 0) with
  | none => pure .failed
  | some coinbase =>
    match ← takeTransactions env now bl id 0 bl.txHashes with
    | none => pure .failed
    | some taken => finishBlock env now bl id coinbase taken

/-- `handle_block_to_main_chain`. -/
def handleBlockToMainChain (env : Env) (now : Nat) (bl : Block) (id : Hash) :
    NodeM BlockVerdict := do
  let n ← get
  match checkBlockHeader env now n.chain bl with
  | some v => pure v
  | none =>
    -- written before the form is looked at, so a refused block leaves it behind
    onChain (modify (·.setCheckpointZone n.chain.mBlocks.length))
    let n ← get
    if checkBlockForm n.chain bl id n.chain.mBlocks.length then connectBlock env now bl id
    else pure .failed

end DarknetSpace
