import DarknetSpace.Sync.ShortHistory
import DarknetSpace.Format.Archive
import Mathlib.Data.Finset.Basic

/-!
# The synchronisation protocol

`currency_protocol_handler` keeps one context per connection. To catch up, a
node sends its short history, gets back a stretch of ids, asks for the blocks it
does not have, up to two hundred at a time, hands them to its core, and goes on
until the stretch reaches the top of the peer.

The handler is a template over the core, and so are the definitions here: what
it calls of the core is `SyncCore`, and `nodeCore` is the node of this program.

`SyncCore` is what the handler needs of the core, and `Endpoint` one end of a
connection. The messages are structures that have been loaded; how they are stored is in
`Net/Messages`. Every handler is a computation on the endpoint that may throw, in the
order of the source.
-/

namespace DarknetSpace

open StateExn

/-- `BLOCKS_IDS_SYNCHRONIZING_DEFAULT_COUNT` and
`BLOCKS_SYNCHRONIZING_DEFAULT_COUNT`. -/
def blocksIdsSynchronizingDefaultCount : Nat := 10000
def blocksSynchronizingDefaultCount : Nat := 200

def currencyMaxBlockSize : Nat := 500000000

/-! ## Messages -/

structure BlockCompleteEntry where
  block : Blob
  txs : List Blob
  deriving DecidableEq

/-- `NOTIFY_RESPONSE_CHAIN_ENTRY`. -/
structure ChainEntry where
  startHeight : Nat
  totalHeight : Nat
  mBlockIds : List Hash
  deriving DecidableEq

/-- `NOTIFY_RESPONSE_GET_OBJECTS`. -/
structure ObjectsEntry where
  txs : List Blob
  blocks : List BlockCompleteEntry
  missedIds : List Hash
  currentBlockchainHeight : Nat
  deriving DecidableEq

/-- `CORE_SYNC_DATA`. -/
structure CoreSyncData where
  currentHeight : Nat
  topId : Hash
  lastCheckpointHeight : Nat

/-- What a node that catches up sends: `NOTIFY_REQUEST_CHAIN` and
`NOTIFY_REQUEST_GET_OBJECTS`. -/
inductive SyncRequest where
  | chain (blockIds : List Hash)
  | getObjects (txs blocks : List Hash)
  deriving DecidableEq

/-- What it gets back. -/
inductive SyncResponse where
  | chainEntry (arg : ChainEntry)
  | objects (arg : ObjectsEntry)
  deriving DecidableEq

/-! ## The core behind the handler -/

/-- The part of `t_core` the handler uses. `τ` is what a call finds outside the
core: the clock. -/
structure SyncCore (σ τ : Type) where
  haveBlock : σ → Hash → Bool
  getShortChainHistory : σ → List Hash
  getCurrentBlockchainHeight : σ → Nat
  getTopCheckpointHeight : σ → Nat
  handleIncomingTx : τ → (txBlob : Blob) → (keepedByBlock : Bool) →
    EStateM Exn σ TxVerificationContext
  handleIncomingBlock : τ → (blockBlob : Blob) → EStateM Exn σ BlockVerificationContext

/-- `checkpoints::get_top_checkpoint_height`. -/
def Checkpoints.getTopCheckpointHeight (points : Checkpoints) : Nat :=
  (points.keys.getLast?).getD 0

/-- `core::handle_incoming_block`. The block template of the miner is not part
of the node here. -/
def handleIncomingBlock (env : Env) (now depth : Nat) (blockBlob : Blob) :
    NodeM BlockVerificationContext :=
  if currencyMaxBlockSize < blockBlob.length then pure BlockVerdict.failed.2
  else
    match parseAndValidateBlockFromBlob blockBlob with
    | none => pure BlockVerdict.failed.2
    | some b => do
      let v ← addNewBlock env now depth b
      pure v.2

/-- The node as a core: a call is made at a time, with a bound on nested
reorganisations. -/
def nodeCore (env : Env) : SyncCore Node (Nat × Nat) where
  haveBlock n id := n.chain.haveBlock id
  getShortChainHistory n := n.chain.getShortChainHistory env
  getCurrentBlockchainHeight n := n.chain.getCurrentBlockchainHeight
  getTopCheckpointHeight n := n.chain.mCheckpoints.getTopCheckpointHeight
  handleIncomingTx t txBlob kept := do
    let v ← handleIncomingTx env t.1 txBlob kept
    pure v.2
  handleIncomingBlock t blockBlob := handleIncomingBlock env t.1 t.2 blockBlob

/-! ## The context of a connection -/

inductive ConnectionState where
  | beforHandshake | synchronizing | idle | normal
  deriving DecidableEq

/-- `currency_connection_context`. -/
structure ConnectionContext where
  mState : ConnectionState
  mNeededObjects : List Hash
  mRequestedObjects : Finset Hash
  mRemoteBlockchainHeight : Nat
  mLastResponseHeight : Nat
  mCallbackRequestCount : Nat

def ConnectionContext.fresh : ConnectionContext := ⟨.beforHandshake, [], ∅, 0, 0, 0⟩

/-- What the handler writes to its log before it gives up. -/
inductive SyncError where
  | falseCallback
  | softwareOutdated
  | newBlockTxFailed
  | newBlockFailed
  | newTxFailed
  | emptyBlockIds
  | unknownFirstId
  | wrongChainEntry
  | wrongObjectsHeight
  | wrongBlock
  | notRequested
  | txCountMismatch
  | notAllReturned
  | txFailed
  | blockFailed
  | blockOrphaned
  | finalConditionFailed
  deriving DecidableEq

/-- This side of a connection: the core, the context, the notifications posted
and not yet read by the peer, the log, whether the connection is being dropped,
and how often the peer's address was reported. -/
structure Endpoint (σ : Type) where
  core : σ
  context : ConnectionContext
  outbox : List SyncRequest
  errors : List SyncError
  dropped : Bool
  ipFails : Nat

namespace Endpoint

variable {σ : Type}

/-- `post_notify`. -/
def post (r : SyncRequest) (e : Endpoint σ) : Endpoint σ := { e with outbox := e.outbox ++ [r] }

def logError (err : SyncError) (e : Endpoint σ) : Endpoint σ :=
  { e with errors := e.errors ++ [err] }

/-- `drop_connection`, behind its log line. -/
def drop (err : SyncError) (e : Endpoint σ) : Endpoint σ :=
  { e with errors := e.errors ++ [err], dropped := true }

/-- `drop_connection` and `add_ip_fail`. -/
def dropAndReport (err : SyncError) (e : Endpoint σ) : Endpoint σ :=
  { e with errors := e.errors ++ [err], dropped := true, ipFails := e.ipFails + 1 }

end Endpoint

/-- A handler: it may leave by an exception of the core. -/
abbrev HandlerM (σ : Type) := EStateM Exn (Endpoint σ)

/-- A call of the core. -/
def onCore {σ α : Type} (x : EStateM Exn σ α) : HandlerM σ α :=
  zoom (·.core) (fun e c => { e with core := c }) x

/-! ## Asking -/

section

variable {σ τ : Type} (C : SyncCore σ τ)

/-- `NOTIFY_REQUEST_CHAIN` with the short history. -/
def requestChain (e : Endpoint σ) : Endpoint σ := e.post (.chain (C.getShortChainHistory e.core))

/-- The loop over `m_needed_objects`: the ids to ask for, and those left. -/
def takeNeeded (skip : Hash → Bool) : List Hash → (count : Nat) → List Hash × List Hash
  | [], _ => ([], [])
  | id :: rest, count =>
    if count < blocksSynchronizingDefaultCount then
      if skip id then takeNeeded skip rest count
      else
        let (asked, left) := takeNeeded skip rest (count + 1)
        (id :: asked, left)
    else ([], id :: rest)

/-- `n - 1` on `uint64_t`. -/
def heightBelow (n : Nat) : Nat := if n = 0 then 2 ^ 64 - 1 else n - 1

/-- The condition `request_missing_objects` checks before it is done. -/
def ConnectionContext.FinalCondition (c : ConnectionContext) : Prop :=
  c.mLastResponseHeight = heightBelow c.mRemoteBlockchainHeight ∧ c.mNeededObjects = [] ∧
    c.mRequestedObjects = ∅

instance (c : ConnectionContext) : Decidable c.FinalCondition := by
  unfold ConnectionContext.FinalCondition
  infer_instance

/-- `request_missing_objects`. -/
def requestMissingObjects (checkHavingBlocks : Bool) (e : Endpoint σ) : Bool × Endpoint σ :=
  if e.context.mNeededObjects ≠ [] then
    -- we know objects that we need, request this objects
    let (asked, left) := takeNeeded (fun id => checkHavingBlocks && C.haveBlock e.core id)
      e.context.mNeededObjects 0
    let context := { e.context with
      mNeededObjects := left
      mRequestedObjects := e.context.mRequestedObjects ∪ asked.toFinset }
    (true, { e with context }.post (.getObjects [] asked))
  else if e.context.mLastResponseHeight < heightBelow e.context.mRemoteBlockchainHeight then
    -- we have to fetch more objects ids, request blockchain entry
    (true, requestChain C e)
  else if e.context.FinalCondition then
    (true, { e with context := { e.context with mState := .normal } })
  else (false, e.logError .finalConditionFailed)

/-- `on_callback`. -/
def onCallback (e : Endpoint σ) : Bool × Endpoint σ :=
  if e.context.mCallbackRequestCount = 0 then (false, e.logError .falseCallback)
  else
    let e := { e with context :=
      { e.context with mCallbackRequestCount := e.context.mCallbackRequestCount - 1 } }
    if e.context.mState = .synchronizing then (true, requestChain C e) else (true, e)

/-- `process_payload_sync_data`; `false` closes the connection. -/
def processPayloadSyncData (hshd : CoreSyncData) (isInital : Bool) (e : Endpoint σ) :
    Bool × Endpoint σ :=
  let height := C.getCurrentBlockchainHeight e.core
  let ours := C.getTopCheckpointHeight e.core
  if e.context.mState = .beforHandshake ∧ isInital = false then (true, e)
  else if e.context.mState = .synchronizing then (true, e)
  else if C.haveBlock e.core hshd.topId then
    (true, { e with context := { e.context with mState := .normal } })
  else if hshd.currentHeight < height then (true, e)
  else if hshd.lastCheckpointHeight ≠ 0 ∧ ours < hshd.lastCheckpointHeight ∧
      height < hshd.lastCheckpointHeight then
    (false, e.drop .softwareOutdated)
  else
    (true, { e with context := { e.context with
      mState := .synchronizing
      mRemoteBlockchainHeight := hshd.currentHeight
      mCallbackRequestCount := e.context.mCallbackRequestCount + 1 } })

/-! ## Listening -/

/-- The transactions of one block, or of one notification; `false` after the one
that failed, with the connection dropped. -/
def handleTxs (t : τ) (kept : Bool) (err : SyncError) : List Blob → HandlerM σ Bool
  | [] => pure true
  | txBlob :: rest => do
    let tvc ← onCore (C.handleIncomingTx t txBlob kept)
    if tvc.mVerifivationFailed then
      modify (·.drop err)
      pure false
    else handleTxs t kept err rest

/-- `handle_notify_new_block`. Relaying is the business of other connections. -/
def handleNotifyNewBlock (t : τ) (b : BlockCompleteEntry) : HandlerM σ PUnit := do
  let e ← get
  if e.context.mState ≠ .normal then pure ()
  else if ← handleTxs C t true .newBlockTxFailed b.txs then
    let bvc ← onCore (C.handleIncomingBlock t b.block)
    if bvc.mVerifivationFailed then modify (·.drop .newBlockFailed)
    else if bvc.mAddedToMainChain then pure ()
    else if bvc.mMarkedAsOrphaned then
      modify fun e => requestChain C
        { e with context := { e.context with mState := .synchronizing } }

/-- `handle_notify_new_transactions`. -/
def handleNotifyNewTransactions (t : τ) (txs : List Blob) : HandlerM σ PUnit := do
  let e ← get
  if e.context.mState ≠ .normal then pure ()
  else let _ ← handleTxs C t false .newTxFailed txs

/-- `handle_response_chain_entry`. The third complaint drops the connection and
carries on. -/
def handleResponseChainEntry (arg : ChainEntry) (e : Endpoint σ) : Endpoint σ :=
  match arg.mBlockIds with
  | [] => e.dropAndReport .emptyBlockIds
  | front :: _ =>
    if ¬ C.haveBlock e.core front then e.dropAndReport .unknownFirstId
    else
      let e := { e with context := { e.context with
        mRemoteBlockchainHeight := arg.totalHeight
        mLastResponseHeight := arg.startHeight + arg.mBlockIds.length - 1 } }
      let e := if arg.totalHeight < arg.startHeight + arg.mBlockIds.length - 1
        then e.drop .wrongChainEntry else e
      let unknown := arg.mBlockIds.filter fun id => !C.haveBlock e.core id
      let e := { e with context :=
        { e.context with mNeededObjects := e.context.mNeededObjects ++ unknown } }
      (requestMissingObjects C false e).2

/-- The first loop of `handle_response_get_objects`: is this what was asked for?
`false` when the handler returns there. -/
def checkDelivered (env : Env) : List BlockCompleteEntry → (count : Nat) → Endpoint σ →
    Bool × Endpoint σ
  | [], _, e => (true, e)
  | entry :: rest, count, e =>
    match parseAndValidateBlockFromBlob entry.block with
    | none => (false, e.dropAndReport .wrongBlock)
    | some b =>
      let id := getBlockHash env b
      -- to avoid concurrency in core between connections, suspend connections
      -- which delivered block later then first one
      if count + 1 = 2 ∧ C.haveBlock e.core id then
        (false, { e with context := { e.context with
          mState := .idle
          mNeededObjects := []
          mRequestedObjects := ∅ } })
      else if id ∉ e.context.mRequestedObjects then (false, e.drop .notRequested)
      else if b.txHashes.length ≠ entry.txs.length then (false, e.drop .txCountMismatch)
      else
        checkDelivered env rest (count + 1) { e with context :=
          { e.context with mRequestedObjects := e.context.mRequestedObjects.erase id } }

/-- The second loop: the blocks go to the core. -/
def processDelivered (t : τ) : List BlockCompleteEntry → HandlerM σ Bool
  | [] => pure true
  | entry :: rest => do
    if ← handleTxs C t true .txFailed entry.txs then
      let bvc ← onCore (C.handleIncomingBlock t entry.block)
      if bvc.mVerifivationFailed then
        modify (·.dropAndReport .blockFailed)
        pure false
      else if bvc.mMarkedAsOrphaned then
        modify (·.dropAndReport .blockOrphaned)
        pure false
      else processDelivered t rest
    else pure false

/-- `handle_response_get_objects`. -/
def handleResponseGetObjects (env : Env) (t : τ) (arg : ObjectsEntry) : HandlerM σ PUnit :=
  fun e =>
    if arg.currentBlockchainHeight < e.context.mLastResponseHeight then
      .ok () (e.drop .wrongObjectsHeight)
    else
      let e := { e with context :=
        { e.context with mRemoteBlockchainHeight := arg.currentBlockchainHeight } }
      match checkDelivered C env arg.blocks 0 e with
      | (false, e) => .ok () e
      | (true, e) =>
        if e.context.mRequestedObjects ≠ ∅ then .ok () (e.drop .notAllReturned)
        else
          match processDelivered C t arg.blocks e with
          | .error ex e => .error ex e
          | .ok false e => .ok () e
          | .ok true e => .ok () (requestMissingObjects C true e).2

/-- What a response does to this side. -/
def handleResponse (env : Env) (t : τ) : SyncResponse → HandlerM σ PUnit
  | .chainEntry arg => modify (handleResponseChainEntry C arg)
  | .objects arg => handleResponseGetObjects C env t arg

end

/-! ## Answering -/

/-- The ids from `startHeight` on, as many as one answer holds. -/
def Storage.stretchFrom (env : Env) (s : Storage) (startHeight : Nat) : ChainEntry where
  startHeight
  totalHeight := s.getCurrentBlockchainHeight
  mBlockIds := ((blockIds env s.mBlocks).drop startHeight).take blocksIdsSynchronizingDefaultCount

/-- `find_blockchain_supplement` of `NOTIFY_REQUEST_CHAIN`: the ids from the
fork point on. -/
def Storage.chainEntry (env : Env) (s : Storage) (qblockIds : List Hash) :
    Except Exn (Option ChainEntry) := do
  let start ← s.findBlockchainSupplement env qblockIds
  return start.map (s.stretchFrom env)

/-- `get_blocks` by id: the blocks of the main chain and the missing ids; it
stops at an id whose index entry is past the chain. -/
def Storage.getBlocks (s : Storage) : List Hash → List Block × List Hash
  | [] => ([], [])
  | id :: rest =>
    match indexHeight s.mBlocksIndex id with
    | none =>
      let (blocks, missed) := s.getBlocks rest
      (blocks, id :: missed)
    | some h =>
      match s.mBlocks[h]? with
      | none => ([], [])
      | some e =>
        let (blocks, missed) := s.getBlocks rest
        (e.bl :: blocks, missed)

/-- `get_transactions`: from the chain, else from the pool. -/
def Node.getTransactions (n : Node) : List Hash → Except Exn (List Transaction × List Hash)
  | [] => .ok ([], [])
  | id :: rest => do
    match n.chain.mTransactions[id]? with
    | some idx =>
      let entry ← n.chain.transactionByIndex idx
      let (txs, missed) ← n.getTransactions rest
      return (entry.tx :: txs, missed)
    | none =>
      let (txs, missed) ← n.getTransactions rest
      match n.pool.mTransactions[id]? with
      | some txd => return (txd.tx :: txs, missed)
      | none => return (txs, id :: missed)

/-- The blocks of an answer, each with its transactions. -/
def Node.completeEntries (n : Node) : List Block → Except Exn (List BlockCompleteEntry × List Hash)
  | [] => .ok ([], [])
  | b :: rest => do
    let (txs, missed) ← n.getTransactions b.txHashes
    let (entries, missed') ← n.completeEntries rest
    return (⟨blockToBlob b, txs.map txToBlob⟩ :: entries, missed ++ missed')

/-- `blockchain_storage::handle_get_objects`. -/
def Node.handleGetObjects (n : Node) (txs blocks : List Hash) : Except Exn ObjectsEntry := do
  let (found, missed) := n.chain.getBlocks blocks
  let (entries, missedTxs) ← n.completeEntries found
  let (aside, missedAside) ← n.getTransactions txs
  return { txs := aside.map txToBlob
           blocks := entries
           missedIds := missed ++ missedTxs ++ missedAside
           currentBlockchainHeight := n.chain.getCurrentBlockchainHeight }

/-- `handle_request_chain` and `handle_request_get_objects`: the answer, if
there is one. -/
def Node.answer (env : Env) (n : Node) : SyncRequest → Except Exn (Option SyncResponse)
  | .chain blockIds => do
    let r ← n.chain.chainEntry env blockIds
    return r.map .chainEntry
  | .getObjects txs blocks => do
    let r ← n.handleGetObjects txs blocks
    return some (.objects r)

/-- `get_payload_sync_data`. -/
def Node.getPayloadSyncData (env : Env) (n : Node) : CoreSyncData where
  currentHeight := n.chain.getCurrentBlockchainHeight
  topId := n.chain.getTopBlockId env
  lastCheckpointHeight := n.chain.mCheckpoints.getTopCheckpointHeight

end DarknetSpace
