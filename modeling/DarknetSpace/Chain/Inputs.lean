import DarknetSpace.Chain.Storage

/-!
# Checking the inputs of a transaction against the chain

`check_tx_inputs` only reads the chain, and can throw while it does: an output
entry whose block number is not in `m_blocks` leaves by `index overflow`. The
results are `some h` where the source returns `true` with `h` in
`*pmax_used_block_height`, and `none` where it returns `false`.

The three loops, over the inputs, over the outputs of a ring and over the transactions
they point at, are taken from the source as they stand, with the tests in their order:
what is refused and what throws depends on that order, and so does the height that is
reported. A ring whose offsets wrap is found the same way here as there.
-/

namespace DarknetSpace

/-- `relative_output_offsets_to_absolute`. -/
def relativeOutputOffsetsToAbsolute (off : List UInt64) : List UInt64 :=
  go 0 off
where
  go (base : UInt64) : List UInt64 → List UInt64
    | [] => []
    | o :: rest => (base + o) :: go (base + o) rest

namespace Storage

/-- `is_tx_spendtime_unlocked`: a block number below
`CURRENCY_MAX_BLOCK_NUMBER`, a time from there on. -/
def isTxSpendtimeUnlocked (now : Nat) (s : Storage) (unlockTime : UInt64) : Bool :=
  if unlockTime.toNat < currencyMaxBlockNumber then
    -- the source subtracts one on the left: the height is never zero there
    decide (s.getCurrentBlockchainHeight + currencyLockedTxAllowedDeltaBlocks
      ≥ unlockTime.toNat + 1)
  else decide (now + currencyLockedTxAllowedDeltaSeconds ≥ unlockTime.toNat)

/-- The checks on `mix_attr`: how many outputs the ring has to have. -/
def mixAttrAllows (mixAttr : UInt8) (ringSize : Nat) : Bool :=
  if 1 < mixAttr then decide (mixAttr.toNat ≤ ringSize)
  else if mixAttr = currencyToKeyOutForcedNoMix then decide (ringSize = 1)
  else true

/-- One referenced output, as `scan_outputkeys_for_indexes` and its
`outputs_visitor` see it: its key and the height of the block that keeps it. -/
def scanOutput (env : Env) (now : Nat) (s : Storage) (outs : AmountOuts) (ringSize : Nat)
    (i : UInt64) : Except Exn (Option (PublicKey × Nat)) :=
  match outs[i.toNat]? with
  | none => .ok none
  | some (idx, out) =>
    match s.transactionByIndex idx with
    | .error e => .error e
    | .ok txe =>
      if ¬ s.mTransactions.contains (getTransactionHash env txe.tx) then .ok none
      else
        match txe.tx.vout[out.toNat]? with
        | none => .ok none
        | some o =>
          match o.target with
          | .toKey key mixAttr =>
            if mixAttrAllows mixAttr ringSize && isTxSpendtimeUnlocked now s txe.tx.unlockTime then
              .ok (some (key, txe.mKeeperBlockHeight))
            else .ok none
          | _ => .ok none

/-- The loop over the absolute offsets of a ring. -/
def scanOutputs (env : Env) (now : Nat) (s : Storage) (outs : AmountOuts) (ringSize : Nat) :
    List UInt64 → Except Exn (Option (List (PublicKey × Nat)))
  | [] => .ok (some [])
  | i :: rest =>
    match scanOutput env now s outs ringSize i with
    | .error e => .error e
    | .ok none => .ok none
    | .ok (some k) =>
      match scanOutputs env now s outs ringSize rest with
      | .ok (some ks) => .ok (some (k :: ks))
      | r => r

/-- `scan_outputkeys_for_indexes`. -/
def scanOutputkeysForIndexes (env : Env) (now : Nat) (s : Storage) (amount : UInt64)
    (keyOffsets : List UInt64) : Except Exn (Option (List (PublicKey × Nat))) :=
  match s.mOutputs[amount]? with
  | none => .ok none
  | some outs =>
    if keyOffsets = [] then .ok none
    else
      scanOutputs env now s outs keyOffsets.length (relativeOutputOffsetsToAbsolute keyOffsets)

/-- `check_tx_input`; the height of the ring's last output enters the maximum. -/
def checkTxInput (env : Env) (now : Nat) (s : Storage) (amount : UInt64)
    (keyOffsets : List UInt64) (kImage : KeyImage) (txPrefixHash : Hash) (sig : List Signature)
    (maxUsed : Nat) : Except Exn (Option Nat) :=
  match scanOutputkeysForIndexes env now s amount keyOffsets with
  | .error e => .error e
  | .ok none => .ok none
  | .ok (some ring) =>
    -- of the ring only the output scanned last counts
    let maxUsed := max maxUsed ((ring.getLast?.map (·.2)).getD 0)
    -- below a checkpoint the ring signature is taken on trust
    if s.mIsInCheckpointZone then .ok (some maxUsed)
    else if sig.length ≠ ring.length then .ok none
    else if env.checkRingSignature txPrefixHash kImage (ring.map (·.1)) sig then
      .ok (some maxUsed)
    else .ok none

/-- The loop of `check_tx_inputs`. Inside the checkpoint zone the signatures
are not looked at; outside, each input takes the next list of them, and none
may be left over. -/
def checkInputs (env : Env) (now : Nat) (s : Storage) (txPrefixHash : Hash) :
    List Txin → List (List Signature) → Nat → Except Exn (Option Nat)
  | [], sigs, maxUsed =>
    if s.mIsInCheckpointZone || sigs.isEmpty then .ok (some maxUsed) else .ok none
  | .toKey amount keyOffsets kImage :: rest, sigs, maxUsed =>
    if keyOffsets = [] then .ok none
    else if s.haveTxKeyimgAsSpent kImage then .ok none
    else if ¬ s.mIsInCheckpointZone ∧ sigs.isEmpty then .ok none
    else
      match checkTxInput env now s amount keyOffsets kImage txPrefixHash (sigs.headD []) maxUsed with
      | .ok (some m) => checkInputs env now s txPrefixHash rest sigs.tail m
      | r => r
  | _ :: _, _, _ => .ok none

/-- `check_tx_inputs(tx, pmax_used_block_height)`. -/
def checkTxInputs (env : Env) (now : Nat) (s : Storage) (tx : Transaction) :
    Except Exn (Option Nat) :=
  checkInputs env now s (getTransactionHash env tx) tx.vin tx.signatures 0

/-- `check_tx_inputs(tx, max_used_block_height, max_used_block_id)`. -/
def checkTxInputsWithId (env : Env) (now : Nat) (s : Storage) (tx : Transaction) :
    Except Exn (Option (Nat × Hash)) :=
  match s.checkTxInputs env now tx with
  | .error e => .error e
  | .ok none => .ok none
  | .ok (some h) =>
    match s.mBlocks[h]? with
    | none => .ok none
    | some e => .ok (some (h, getBlockHash env e.bl))

end Storage

end DarknetSpace
