import DarknetSpace.Chain.Push

/-!
# Alternative chains and reorganisation

`handle_alternative_block` judges a block that does not extend the main chain
against the chain it does extend: part of the main chain, then entries of
`m_alternative_chains`. When that chain outweighs the main one it calls
`switch_to_alternative_blockchain`, which hands the disconnected blocks back to
`handle_alternative_block`. That recursion is bounded by `depth`, the number of
reorganisations that may nest; running out of it is `endless`, never an
ordinary result.

The `TRY_ENTRY`/`CATCH_ENTRY` pair in `handle_alternative_block` is the only
handler in this part of the source. It turns an exception into `false`, with
the state left as it was thrown.
-/

namespace DarknetSpace

open StateExn

namespace BlockVerdict

def orphaned : BlockVerdict :=
  (true, { BlockVerificationContext.empty with mMarkedAsOrphaned := true })
/-- Kept as an alternative block. -/
def kept : BlockVerdict := (true, BlockVerificationContext.empty)
def alreadyExists : BlockVerdict :=
  (false, { BlockVerificationContext.empty with mAlreadyExists := true })

end BlockVerdict

/-- An alternative chain, the block next to the main chain first. -/
abbrev AltChain := List (Hash × BlockEntry)

/-! ## What an alternative block is judged by -/

/-- `while(alt_it != end)`: from `id` back to the main chain. -/
def altChainTo (alts : Map Hash BlockEntry) : (fuel : Nat) → Hash → Except Exn AltChain
  | 0, _ => .error .endless
  | fuel + 1, id =>
    match alts[id]? with
    | none => .ok []
    | some e =>
      match altChainTo alts fuel e.bl.prevId with
      | .ok chain => .ok (chain ++ [(id, e)])
      | r => r

/-- `m_blocks[height - 1]`. -/
def Storage.blockBefore (s : Storage) : Nat → Except Exn BlockEntry
  | 0 => .error .indexOverflow
  | h + 1 => s.blockAt h

/-- `complete_timestamps_vector`. -/
def completeTimestampsVector (blocks : List BlockEntry) (startTopHeight : Nat)
    (timestamps : List UInt64) : List UInt64 :=
  if blockchainTimestampCheckWindow ≤ timestamps.length ∨ blocks.length ≤ startTopHeight then
    timestamps
  else
    let needElements := blockchainTimestampCheckWindow - timestamps.length
    let stopOffset := startTopHeight - needElements
    -- one entry from the bottom of the chain is all there is at height 0
    let window :=
      if startTopHeight = 0 then blocks.take 1
      else (blocks.drop (stopOffset + 1)).take (startTopHeight - stopOffset)
    timestamps ++ (window.map (·.bl.timestamp)).reverse

/-- `get_next_difficulty_for_alternative_chain`. -/
def getNextDifficultyForAlternativeChain (blocks : List BlockEntry) (altChain : List BlockEntry)
    (height : Nat) : Except Exn Nat :=
  let entries : Except Exn (List BlockEntry) :=
    if altChain.length < difficultyBlocksCount then
      let stop := (altChain.head?.map (·.height)).getD height
      let count := min (difficultyBlocksCount - altChain.length) stop
      let start := if stop - count = 0 then 1 else stop - count
      -- reading `m_blocks` up to `stop`
      if start < stop ∧ blocks.length < stop then .error .indexOverflow
      else .ok ((blocks.drop start).take (stop - start) ++ altChain)
    else .ok (altChain.drop (altChain.length - difficultyBlocksCount))
  entries.map fun es => nextDifficulty (es.map (·.bl.timestamp)) (es.map (·.cumulativeDifficulty))

/-- The alternative chain's own part of the scratchpad, and the patch it lays
over the common part. -/
def altScratchpad (env : Env) : List BlockEntry → List Hash → ScratchpadPatch →
    Except Exn (List Hash × ScratchpadPatch)
  | [], pad, patch => .ok (pad, patch)
  | e :: rest, pad, patch => do
    let (pad, patch) ← pushBlockScratchpadPatch env e.scratchOffset e.bl pad patch
    altScratchpad env rest pad patch

/-- The patches of the main-chain blocks above the connection point; `none`
where the source returns `false`. -/
def mainLinePatches (env : Env) : List BlockEntry → ScratchpadPatch →
    Except Exn (Option ScratchpadPatch)
  | [], patch => .ok (some patch)
  | e :: rest, patch => do
    let (ok, addendum) ← getBlockScratchpadAddendum env e.bl
    if ok then mainLinePatches env rest (getScratchpadPatch e.scratchOffset addendum patch)
    else pure none

/-- Undo in `altPatch` what the main line wrote below `offset`. -/
def mergePatches (offset : Nat) (main altPatch : ScratchpadPatch) : ScratchpadPatch :=
  main.toList.foldl (fun p (cell, h) => if cell < offset then patchXor p cell h else p) altPatch

/-- One scratchpad entry as the alternative block sees it. -/
def altScratchpadAt (main alt : List Hash) (patch : ScratchpadPatch)
    (connectionOffset scratchOffset i : Nat) : Hash :=
  let offset := i % scratchOffset
  let cell :=
    if connectionOffset ≤ offset then (alt[offset - connectionOffset]?).getD nullHash
    else (main[offset]?).getD nullHash
  cell ^^^ patch.getD offset 0

/-- What the checks up to the proof of work find out about a block. -/
structure AltCandidate where
  altChain : AltChain
  height : Nat
  scratchOffset : Nat
  difficulty : Nat

/-- `handle_alternative_block` up to the proof-of-work check, which only reads:
the verdict of the check that failed, or the candidate. -/
def altCandidate (env : Env) (s : Storage) (b : Block) : Except Exn (BlockVerdict ⊕ AltCandidate) := do
  let nHeight := indexHeight s.mBlocksIndex b.prevId
  if (s.mAlternativeChains[b.prevId]?).isNone ∧ nHeight.isNone then return .inl .orphaned
  let altChain ← altChainTo s.mAlternativeChains (s.mAlternativeChains.size + 1) b.prevId
  let entries := altChain.map (·.2)
  let timestamps := (entries.map (·.bl.timestamp)).reverse
  let connection ←
    match entries with
    | front :: _ =>
      -- the main chain has become shorter than the place the branch leaves it at
      if s.mBlocks.length ≤ front.height then pure none
      else do
        let before ← s.blockBefore front.height
        if getBlockHash env before.bl ≠ front.bl.prevId then pure none
        else
          pure (some (front.height,
            completeTimestampsVector s.mBlocks (front.height - 1) timestamps))
    | [] =>
      match nHeight with
      | none => pure none
      | some h => pure (some (h + 1, completeTimestampsVector s.mBlocks h timestamps))
  match connection with
  | none => return .inl .refused
  | some (connectionHeight, timestamps) =>
    let (pad, patch) ← altScratchpad env entries [] ∅
    if ¬ Storage.checkBlockTimestamp timestamps b then return .inl .failed
    let height := (entries.getLast?.map (·.height + 1)).getD connectionHeight
    -- the scratchpad offset below is read at the block above the connection
    if connectionHeight = 0 then return .inl .refused
    let base ← s.blockAt connectionHeight
    let scratchOffset := base.scratchOffset + pad.length
    if scratchOffset = 0 then return .inl .refused
    match ← mainLinePatches env (s.mBlocks.drop connectionHeight) ∅ with
    | none => return .inl .refused
    | some main =>
      let patch := mergePatches base.scratchOffset main patch
      let difficulty ← getNextDifficultyForAlternativeChain s.mBlocks entries height
      if difficulty = 0 then return .inl .refused
      let pow := env.longhash b height
        (altScratchpadAt s.mScratchpad pad patch base.scratchOffset scratchOffset)
      if ¬ env.checkHash pow difficulty then return .inl .failed
      return .inr { altChain, height, scratchOffset, difficulty }

/-- `bei.cumulative_difficulty` before the block's own difficulty is added. -/
def altPrevDifficulty (s : Storage) (b : Block) (altChain : AltChain) : Except Exn Nat :=
  match altChain.getLast? with
  | some (_, e) => .ok e.cumulativeDifficulty
  | none =>
    match indexHeight s.mBlocksIndex b.prevId with
    | none => .error .indexOverflow
    | some h => (s.blockAt h).map (·.cumulativeDifficulty)

/-- The entry kept in `m_alternative_chains`. -/
def altBlockEntry (b : Block) (c : AltCandidate) (prevDifficulty : Nat) : BlockEntry :=
  { BlockEntry.ofBlock b with
    height := c.height
    scratchOffset := c.scratchOffset
    cumulativeDifficulty := (prevDifficulty + c.difficulty) % 2 ^ 128 }

/-! ## `handle_alternative_block` around a way to switch chains -/

/-- The body of the `TRY_ENTRY` block behind the proof-of-work check. -/
def keepAlternativeBlock (switch : AltChain → NodeM Bool) (b : Block) (id : Hash)
    (c : AltCandidate) : NodeM BlockVerdict := do
  -- the flag is the main chain's too, and is set here for a block that may only be kept
  onChain (modify (·.setCheckpointZone c.height))
  let n ← get
  if ¬ checkBlockForm n.chain b id c.height then pure .failed
  else
    let prevDifficulty ← readChain fun s => altPrevDifficulty s b c.altChain
    let bei := altBlockEntry b c prevDifficulty
    if n.chain.mAlternativeChains.contains id then pure .refused
    else
      onChain (modify fun s =>
        { s with mAlternativeChains := s.mAlternativeChains.insert id bei })
      if cumulativeDifficulty n.chain.mBlocks < bei.cumulativeDifficulty then
        -- do reorganize!
        let r ← switch (c.altChain ++ [(id, bei)])
        pure (if r then .added else .failed)
      else pure .kept

def alternativeBlockBody (env : Env) (switch : AltChain → NodeM Bool) (b : Block) (id : Hash) :
    NodeM BlockVerdict := do
  match ← readChain fun s => altCandidate env s b with
  | .inl v => pure v
  | .inr c => keepAlternativeBlock switch b id c

/-- `CATCH_ENTRY(location, return_val)`. Undefined behaviour and endless loops
are not exceptions. -/
def catchEntry (x : NodeM BlockVerdict) : NodeM BlockVerdict := fun n =>
  match x n with
  | .error .indexOverflow n' => .ok .refused n'
  | r => r

def alternativeBlock (env : Env) (switch : AltChain → NodeM Bool) (b : Block) (id : Hash) :
    NodeM BlockVerdict := do
  let n ← get
  if n.chain.mCheckpoints.isHeightPassedZone (getBlockHeight b).toNat
      (n.chain.getCurrentBlockchainHeight - 1) then pure .failed
  else catchEntry (alternativeBlockBody env switch b id)

/-! ## Switching chains -/

/-- Pop `count` blocks; the popped ones, lowest first, `none` when a pop
returned `false`. -/
def disconnectBlocks (env : Env) (now : Nat) : (count : Nat) → NodeM (Option (List Block))
  | 0 => pure (some [])
  | count + 1 => do
    -- the copy is taken before the pop, since the pop drops the entry
    let top ← readChain fun s => s.blockBefore s.mBlocks.length
    let r ← popBlockFromBlockchain env now
    if ¬ r then pure none
    else
      match ← disconnectBlocks env now count with
      | none => pure none
      | some bs => pure (some (bs ++ [top.bl]))

/-- Push blocks until one is not added. -/
def reconnectBlocks (env : Env) (now : Nat) : List Block → NodeM Bool
  | [] => pure true
  | b :: rest => do
    let v ← handleBlockToMainChain env now b (getBlockHash env b)
    if v.1 && v.2.mAddedToMainChain then reconnectBlocks env now rest else pure false

/-- `rollback_blockchain_switching`. -/
def rollbackBlockchainSwitching (env : Env) (now : Nat) (originalChain : List Block)
    (rollbackHeight : Nat) : NodeM Bool := do
  let n ← get
  match ← disconnectBlocks env now (n.chain.mBlocks.length - rollbackHeight) with
  | none => pure false
  | some _ => reconnectBlocks env now originalChain

/-- The loop over the blocks above a refused one. `alt_ch_iter` stays on the
first of them, whose entry the first round erases. -/
def orphanRest : AltChain → NodeM PUnit
  | [] => pure ()
  | (id, e) :: rest => do
    onChain (modify (addBlockAsInvalid id e))
    onChain (modify fun s => { s with mAlternativeChains := s.mAlternativeChains.erase id })
    if rest = [] then pure () else throw .undefinedBehaviour

/-- `connecting new alternative chain`: `false` after the first block that is
not added, with the rollback done. -/
def connectAltChain (env : Env) (now : Nat) (disconnected : List Block) (splitHeight : Nat) :
    AltChain → NodeM Bool
  | [] => pure true
  | (id, e) :: rest => do
    let v ← handleBlockToMainChain env now e.bl (getBlockHash env e.bl)
    if v.1 && v.2.mAddedToMainChain then connectAltChain env now disconnected splitHeight rest
    else
      -- the verdict of the rollback is not looked at: the chain may stay short
      let _ ← rollbackBlockchainSwitching env now disconnected splitHeight
      onChain (modify (addBlockAsInvalid (getBlockHash env e.bl) e))
      onChain (modify fun s => { s with mAlternativeChains := s.mAlternativeChains.erase id })
      orphanRest rest
      pure false

/-- `pushing old chain as alternative chain`. -/
def pushOldChain (env : Env) (pushOld : Block → Hash → NodeM BlockVerdict) :
    List Block → NodeM Bool
  | [] => pure true
  | b :: rest => do
    let v ← pushOld b (getBlockHash env b)
    if v.1 then pushOldChain env pushOld rest else pure false

/-- `removing all_chain entries from alternative chain`. -/
def eraseAltChain (altChain : AltChain) (s : Storage) : Storage :=
  { s with mAlternativeChains := altChain.foldl (fun m e => m.erase e.1) s.mAlternativeChains }

/-- `switch_to_alternative_blockchain`. -/
def switchToAlternativeBlockchain (env : Env) (now : Nat)
    (pushOld : Block → Hash → NodeM BlockVerdict) (altChain : AltChain) : NodeM Bool := do
  match altChain with
  | [] => pure false
  | (_, front) :: _ =>
    let n ← get
    let splitHeight := front.height
    if n.chain.mBlocks.length ≤ splitHeight then pure false
    else
      match ← disconnectBlocks env now (n.chain.mBlocks.length - splitHeight) with
      | none => pure false
      | some disconnected =>
        let r ← connectAltChain env now disconnected splitHeight altChain
        if ¬ r then pure false
        else
          -- the new chain is the main chain now; an old block that is refused takes it all back
          let r ← pushOldChain env pushOld disconnected
          if ¬ r then
            let _ ← rollbackBlockchainSwitching env now disconnected splitHeight
            pure false
          else
            onChain (modify (eraseAltChain altChain))
            pure true

/-- `handle_alternative_block`, with at most `depth` nested reorganisations. -/
def handleAlternativeBlock (env : Env) (now : Nat) : (depth : Nat) → Block → Hash →
    NodeM BlockVerdict
  | 0 => alternativeBlock env fun _ => throw .endless
  | depth + 1 =>
    alternativeBlock env (switchToAlternativeBlockchain env now (handleAlternativeBlock env now depth))

/-- `add_new_block`. -/
def addNewBlock (env : Env) (now depth : Nat) (bl : Block) : NodeM BlockVerdict := do
  let id := getBlockHash env bl
  let n ← get
  if n.chain.haveBlock id then pure .alreadyExists
  -- also the first block: the top of no chain is the null hash
  else if bl.prevId ≠ n.chain.getTopBlockId env then handleAlternativeBlock env now depth bl id
  else handleBlockToMainChain env now bl id

end DarknetSpace
