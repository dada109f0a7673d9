import DarknetSpace.Chain.Switch

/-!
# The core's entry points, and the runs of a node

`core::handle_incoming_tx` and `blockchain_storage::add_new_block` are how the
outside reaches the node. A run is any sequence of the two from an accepted
genesis block. A call that leaves by an exception ends in the network thread's
handler and the node carries on with whatever the call had written, so the
state of a run goes on after it. A call that runs into undefined behaviour has
no successor.

`Reachable` is the runs: the clock and the depth to which switches may nest are
arguments of each step. `Event` and `runEvents` are the same for concrete runs, which
the examples of the development use. What is proved of every reachable node is proved by
induction over its run, or from one of the invariants that package this.
-/

namespace DarknetSpace

open StateExn

/-! ## Incoming transactions (`currency_core.cpp`) -/

/-- `check_tx_inputs_keyimages_diff`. -/
def checkTxInputsKeyimagesDiff (tx : TransactionPrefix) : Bool :=
  checkInputsTypesSupported tx && decide (keyImages tx.vin).Nodup

/-- `check_tx_semantic`. -/
def checkTxSemantic (env : Env) (s : Storage) (tx : TransactionPrefix) (keepedByBlock : Bool) :
    Bool :=
  let sizeLimit := (s.mCurrentBlockCumulSzLimit + 2 ^ 64 - currencyCoinbaseBlobReservedSize) % 2 ^ 64
  !tx.vin.isEmpty
    && checkInputsTypesSupported tx
    && checkOutsValid env tx
    && checkMoneyOverflow tx
    && decide (getOutsMoneyAmount tx < (getInputsMoneyAmount tx).getD 0)
    && (keepedByBlock || decide (getObjectBlobsize env tx < sizeLimit))
    && checkTxInputsKeyimagesDiff tx

/-- `core::add_new_tx`: a transaction that is already known is not an error. -/
def addNewTx (env : Env) (now : Nat) (tx : Transaction) (keepedByBlock : Bool) (aliasName : Blob) :
    NodeM TxMemoryPool.Verdict := fun n =>
  let id := getTransactionHash env tx
  -- nothing is said in the context: neither added nor failed
  if n.pool.haveTx id || n.chain.haveTx id then .ok (true, TxVerificationContext.empty) n
  else
    match n.pool.addTx env now n.chain tx keepedByBlock aliasName with
    | .ok (v, pool) => .ok v { n with pool }
    | .error e => .error e n

/-- `core::handle_incoming_tx`. -/
def handleIncomingTx (env : Env) (now : Nat) (txBlob : Blob) (keepedByBlock : Bool) :
    NodeM TxMemoryPool.Verdict := do
  let n ← get
  if currencyMaxTxSize < txBlob.length then pure TxMemoryPool.refused
  else
    match env.parseTx txBlob with
    | none => pure TxMemoryPool.refused
    | some tx =>
      if ¬ checkTxSemantic env n.chain tx.toTransactionPrefix keepedByBlock then
        pure TxMemoryPool.refused
      else
        -- the alias goes to the pool with the transaction, it is not parsed again there
        let (r, ei) ← reads fun _ => parseAndValidateTxExtra env tx.toTransactionPrefix
        if ¬ r then pure TxMemoryPool.refused
        else addNewTx env now tx keepedByBlock ei.mAlias.mAlias

/-! ## Runs -/

/-- A call from outside. -/
inductive Event where
  | incomingTx (txBlob : Blob) (keepedByBlock : Bool)
  | newBlock (bl : Block)

/-- One call; what it returned. -/
def runEvent (env : Env) (now depth : Nat) : Event → NodeM Bool
  | .incomingTx txBlob kept => do
    let v ← handleIncomingTx env now txBlob kept
    pure v.1
  | .newBlock bl => do
    let v ← addNewBlock env now depth bl
    pure v.1

/-- The call ended in `n`: it returned, or an exception left it. -/
def EndsIn {α : Type} (r : EStateM.Result Exn Node α) (n : Node) : Prop :=
  (∃ a, r = .ok a n) ∨ r = .error .indexOverflow n

theorem EndsIn.eq_stateOf {α : Type} {r : EStateM.Result Exn Node α} {n : Node} (h : EndsIn r n) :
    n = stateOf r := by
  rcases h with ⟨a, h⟩ | h
  · rw [h, stateOf_ok]
  · rw [h, stateOf_error]

/-- The node before its first block. -/
def Node.initial (checkpoints : Checkpoints) : Node where
  chain := Storage.empty checkpoints
  pool := TxMemoryPool.empty
  popLog := []

/-- The states of every run from an accepted genesis block. -/
inductive Reachable (env : Env) : Node → Prop where
  | genesis {checkpoints : Checkpoints} {now depth : Nat} {bl : Block} {n : Node}
      (h : addNewBlock env now depth bl (Node.initial checkpoints) = .ok .added n) :
      Reachable env n
  | step {n n' : Node} {now depth : Nat} {ev : Event} (hn : Reachable env n)
      (h : EndsIn (runEvent env now depth ev n) n') : Reachable env n'

/-- A list of calls, one after another; `none` when one of them has no
successor. -/
def runEvents (env : Env) (now depth : Nat) : List Event → Node → Option Node
  | [], n => some n
  | ev :: rest, n =>
    match runEvent env now depth ev n with
    | .ok _ n' => runEvents env now depth rest n'
    | .error .indexOverflow n' => runEvents env now depth rest n'
    | .error _ _ => none

theorem Reachable.runEvents {env : Env} {now depth : Nat} {evs : List Event} {n n' : Node}
    (hn : Reachable env n) (h : runEvents env now depth evs n = some n') : Reachable env n' := by
  induction evs generalizing n with
  | nil =>
    cases h
    exact hn
  | cons ev rest ih =>
    unfold DarknetSpace.runEvents at h
    split at h
    · next a n₁ hr => exact ih (.step hn (.inl ⟨a, hr⟩)) h
    · next n₁ hr => exact ih (.step hn (.inr hr)) h
    · cases h

/-- A node from its genesis block on. -/
def runFromGenesis (env : Env) (now depth : Nat) (checkpoints : Checkpoints) (genesis : Block)
    (evs : List Event) : Option Node :=
  match addNewBlock env now depth genesis (Node.initial checkpoints) with
  | .ok v n => if v = .added then runEvents env now depth evs n else none
  | .error _ _ => none

theorem reachable_of_runFromGenesis {env : Env} {now depth : Nat} {checkpoints : Checkpoints}
    {genesis : Block} {evs : List Event} {n : Node}
    (h : runFromGenesis env now depth checkpoints genesis evs = some n) : Reachable env n := by
  unfold runFromGenesis at h
  split at h
  · next v n₀ hg =>
    split at h
    · next hv => exact Reachable.runEvents (.genesis (hv ▸ hg)) h
    · cases h
  · cases h

/-- The call added a block, as a check. -/
def isAdded : EStateM.Result Exn Node BlockVerdict → Bool
  | .ok v _ => decide (v = .added)
  | .error _ _ => false

theorem eq_added {r : EStateM.Result Exn Node BlockVerdict} (h : isAdded r = true) :
    r = .ok .added (stateOf r) := by
  cases r with
  | ok v n =>
    rw [of_decide_eq_true h]
    rfl
  | error e n => cases h

/-- The call returned `true`, as a check. -/
def isOkTrue {σ : Type} : EStateM.Result Exn σ Bool → Bool
  | .ok r _ => r
  | .error _ _ => false

theorem eq_okTrue {σ : Type} {r : EStateM.Result Exn σ Bool} (h : isOkTrue r = true) :
    r = .ok true (stateOf r) := by
  cases r with
  | ok v s =>
    have hv : v = true := h
    rw [hv]
    rfl
  | error e s => cases h

/-! ## A network to try things on

Small enough to evaluate: ids are read off the version and the lock of a
transaction and off the nonce of a block, every proof of work passes, a ring
signature is sound when it is null, and an ordinary transaction spends one of
the equal first outputs of the coinbases. -/

namespace Devnet

/-- The amount of every coinbase's first output. -/
def unit : UInt64 := 200 * coin

/-- An ordinary transaction: its version, the output it spends, its key image,
its signature and its extra field. -/
def spend (version offset kImage sig : UInt8) (extra : Blob) : Transaction where
  version := version.toUInt64
  unlockTime := 0
  vin := [.toKey unit [offset.toUInt64] (BitVec.ofNat 256 kImage.toNat)]
  vout := [⟨coin, .toKey 7 0⟩]
  extra
  signatures := [[BitVec.ofNat 512 sig.toNat]]

def env : Env where
  hashPrefix p := BitVec.ofNat 256 (p.version.toNat * 2 ^ 64 + p.unlockTime.toNat + 1)
  hashBlock b := BitVec.ofNat 256 (b.nonce.toNat + 1)
  hashTxTree _ := 0
  hashTogether p k := p ^^^ k
  hashBlob _ := 0
  prefixBlobsize _ := 100
  longhash _ _ _ := 0
  checkHash _ _ := true
  checkRingSignature _ _ _ sigs := sigs.all (· == nullSig)
  checkSignature _ _ _ := true
  checkKey _ := true
  isOutToAcc _ _ _ _ := true
  parseTx
    | version :: offset :: kImage :: sig :: extra => some (spend version offset kImage sig extra)
    | _ => none
  donationsAccount := ⟨⟨0, 0⟩, 0⟩
  royaltyAccount := ⟨⟨0, 0⟩, 0⟩

def reward (generated : UInt64) : UInt64 := (getBlockReward 0 0 generated 0).getD 0

/-- The coins in circulation before the block at `height`. -/
def emitted : (height : Nat) → UInt64
  | 0 => 0
  | height + 1 => emitted height + reward (emitted height)

def coinbase (height : Nat) (version fee : UInt64) (extra : Blob) : Transaction where
  version
  unlockTime := UInt64.ofNat (height + currencyMinedMoneyUnlockWindow)
  vin := [.gen (UInt64.ofNat height)]
  vout := [⟨unit, .toKey 5 0⟩, ⟨reward (emitted height) + fee - unit, .toKey 6 0⟩]
  extra
  signatures := []

/-- A block on top of the block with nonce `prevNonce`. -/
def block (height : Nat) (nonce prevNonce : UInt64) (minerTx : Transaction)
    (txHashes : List Hash) : Block where
  majorVersion := 0
  minorVersion := 0
  timestamp := UInt64.ofNat (60 * height)
  prevId := BitVec.ofNat 256 (prevNonce.toNat + 1)
  nonce
  flags := 0
  minerTx
  txHashes

def genesis : Block :=
  { block 0 0 0 (coinbase 0 1 0 []) [] with prevId := nullHash }

/-- The block of the main line at a positive height, with nothing but its
coinbase. -/
def mainBlock (height : Nat) : Block :=
  block height (UInt64.ofNat height) (UInt64.ofNat (height - 1)) (coinbase height 1 0 []) []

/-- The block of another line at a positive height. -/
def altBlock (height : Nat) (prevNonce : UInt64) : Block :=
  block height (UInt64.ofNat (100 + height)) prevNonce (coinbase height 2 0 []) []

/-- One block of the main line. -/
def oneBlock : List Event := [.newBlock (mainBlock 1)]

/-- A block of the main line, then two of another line, which wins. -/
def reorganised : List Event :=
  [.newBlock (mainBlock 1), .newBlock (altBlock 1 0), .newBlock (altBlock 2 101)]

/-- A main line long enough for the genesis coinbase to be spent. -/
def longLine : List Event := (List.range 59).map fun k => .newBlock (mainBlock (k + 1))

/-- The same line, and a transaction in the pool. -/
def pooledLine : List Event := longLine ++ [.incomingTx [9, 0, 1, 0] false]

/-- The id of a `spend` of that version, and the fee it pays. -/
def spendId (version : UInt8) : Hash := BitVec.ofNat 256 (version.toNat * 2 ^ 64 + 1)
def fee : UInt64 := unit - coin

def now : Nat := 100000

/-- The node with its genesis block. -/
def first : Node := stateOf (addNewBlock env now 3 genesis (Node.initial ∅))

/-- A node that has seen the genesis block and then `evs`. -/
def run (checkpoints : Checkpoints) (evs : List Event) : Option Node :=
  runFromGenesis env now 3 checkpoints genesis evs

def node (checkpoints : Checkpoints) (evs : List Event) : Node :=
  (run checkpoints evs).getD (Node.initial checkpoints)

theorem reachable_node (checkpoints : Checkpoints) (evs : List Event)
    (h : (run checkpoints evs).isSome = true) : Reachable env (node checkpoints evs) := by
  obtain ⟨n, hn⟩ := Option.isSome_iff_exists.1 h
  rw [node, hn]
  exact reachable_of_runFromGenesis hn

end Devnet

end DarknetSpace
