import DarknetSpace.Wallet.Push
import DarknetSpace.Format.MinerTx

/-!
# Sending money (`wallet2::transfer`)

A transfer adds up what it needs, selects outputs of the wallet that come to as
much, takes the destinations and the change apart (`digit_split_strategy`,
`null_split_strategy`), and has the transaction built (`construct_tx`). What is
too small in the change is left to the fee. Only after the daemon has taken the
transaction does the wallet note it and mark the outputs spent.

Key derivation and signing, the daemon's answers, the clock and the transaction
key come from outside (`TransferEnv`); so does the order `std::sort` leaves equal
amounts in.
-/

namespace DarknetSpace

open StateExn

/-! ## Entries -/

/-- `tx_destination_entry` -/
structure TxDestinationEntry where
  amount : UInt64
  addr : AccountPublicAddress
  deriving DecidableEq

/-- `AUTO_VAL_INIT`. -/
def TxDestinationEntry.blank : TxDestinationEntry := ⟨0, ⟨0, 0⟩⟩

/-- `tx_source_entry`; the outputs are global indexes with their keys. -/
structure TxSourceEntry where
  outputs : List (UInt64 × PublicKey)
  realOutput : Nat
  realOutTxKey : PublicKey
  realOutputInTxIndex : Nat
  amount : UInt64

/-- `COMMAND_RPC_GET_RANDOM_OUTPUTS_FOR_AMOUNTS::out_entry`. -/
structure OutEntry where
  globalAmountIndex : UInt64
  outKey : PublicKey

/-- `DEFAULT_FEE` -/
def defaultFee : UInt64 := 1000000000

/-- `DEFAULT_TX_SPENDABLE_AGE` -/
def defaultTxSpendableAge : Nat := 10

/-- `tx_dust_policy` -/
structure TxDustPolicy where
  dustThreshold : UInt64
  addToFee : Bool
  addrForDust : AccountPublicAddress

/-- The constructor of `tx_dust_policy`: the threshold is `DEFAULT_FEE`, whatever
it is asked for. -/
def txDustPolicy (_aDustThreshold : UInt64) (anAddToFee : Bool)
    (anAddrForDust : AccountPublicAddress) : TxDustPolicy :=
  ⟨defaultFee, anAddToFee, anAddrForDust⟩

/-! ## Taking amounts apart -/

/-- A call `decompose_amount_into_digits` makes. -/
inductive DigitCall where
  | chunk (n : Nat)
  | dust (n : Nat)

/-- The amount that is handed over. -/
def DigitCall.amount : DigitCall → Nat
  | .chunk n => n
  | .dust n => n

/-- The call for the dust, if there is any that has not been handed over. -/
def dustCalls (dust : Nat) (isDustHandled : Bool) : List DigitCall :=
  if ¬ isDustHandled ∧ dust ≠ 0 then [.dust dust] else []

/-- The loop of `decompose_amount_into_digits` with the two handlers told apart. -/
def digitCalls (dustThreshold : Nat) :
    (fuel amount order dust : Nat) → (isDustHandled : Bool) → List DigitCall
  | 0, _, _, dust, isDustHandled => dustCalls dust isDustHandled
  | fuel + 1, amount, order, dust, isDustHandled =>
    if amount = 0 then dustCalls dust isDustHandled
    else
      let chunk := amount % 10 * order
      if dust + chunk ≤ dustThreshold then
        digitCalls dustThreshold fuel (amount / 10) (order * 10) (dust + chunk) isDustHandled
      else
        dustCalls dust isDustHandled ++ (if chunk ≠ 0 then [.chunk chunk] else []) ++
          digitCalls dustThreshold fuel (amount / 10) (order * 10) dust
            (isDustHandled || decide (dust ≠ 0))

/-- The calls for an amount; a `uint64_t` has 20 digits at most. -/
def decomposeCalls (amount dustThreshold : UInt64) : List DigitCall :=
  digitCalls dustThreshold.toNat 20 amount.toNat 1 0 false

/-- What a split strategy returns: the entries and the dust. No value where it
divides by zero. -/
abbrev SplitStrategy :=
  List TxDestinationEntry → TxDestinationEntry → UInt64 → Option (List TxDestinationEntry × UInt64)

/-- Digits of a destination, dust included. -/
def splitDestination (dustThreshold : UInt64) (de : TxDestinationEntry) : List TxDestinationEntry :=
  (decomposeCalls de.amount dustThreshold).map fun call => ⟨UInt64.ofNat call.amount, de.addr⟩

/-- The handlers for the change: a chunk is an entry, dust is noted and the last
call counts. -/
def DigitCall.changeEntry (addr : AccountPublicAddress) : DigitCall → Option TxDestinationEntry
  | .chunk n => some ⟨UInt64.ofNat n, addr⟩
  | .dust _ => none

/-- The lambda for the dust keeps the last one. -/
def DigitCall.noteDust (dust : UInt64) : DigitCall → UInt64
  | .chunk _ => dust
  | .dust n => UInt64.ofNat n

/-- The change, digit by digit. -/
def changeChunks (dustThreshold : UInt64) (changeDst : TxDestinationEntry) : List TxDestinationEntry :=
  (decomposeCalls changeDst.amount dustThreshold).filterMap (DigitCall.changeEntry changeDst.addr)

/-- What is left of the change as dust. -/
def changeDust (dustThreshold : UInt64) (changeDst : TxDestinationEntry) : UInt64 :=
  (decomposeCalls changeDst.amount dustThreshold).foldl DigitCall.noteDust 0

/-- `digit_split_strategy` -/
def digitSplitStrategy : SplitStrategy := fun dsts changeDst dustThreshold =>
  some (dsts.flatMap (splitDestination dustThreshold) ++ changeChunks dustThreshold changeDst,
    changeDust dustThreshold changeDst)

/-- The loop of `null_split_strategy`: the dust and the change. A power of ten
with 64 factors of ten is zero in 64 bits. -/
def nullSplitLoop (amount dustThreshold : UInt64) :
    (fuel : Nat) → (order dust change : UInt64) → Option (UInt64 × UInt64)
  | 0, _, _, _ => none
  | fuel + 1, order, dust, change =>
    if order ≤ 10 * dustThreshold then
      if order = 0 then none
      else if amount % order ≤ dustThreshold then
        nullSplitLoop amount dustThreshold fuel (order * 10) (amount % order)
          (amount / order * order)
      else some (dust, change)
    else some (dust, change)

/-- `null_split_strategy` -/
def nullSplitStrategy : SplitStrategy := fun dsts changeDst dustThreshold =>
  (if 0 < dustThreshold then
    nullSplitLoop changeDst.amount dustThreshold 65 10 0 changeDst.amount
  else some (0, changeDst.amount)).map fun (dust, change) =>
    (if change ≠ 0 then dsts ++ [⟨change, changeDst.addr⟩] else dsts, dust)

/-! ## Selecting outputs -/

/-- `wallet2::is_tx_spendtime_unlocked`. -/
def Wallet2.isTxSpendtimeUnlocked (now : Nat) (w : Wallet2) (unlockTime : UInt64) : Bool :=
  if unlockTime.toNat < currencyMaxBlockNumber then
    decide (unlockTime.toNat ≤
      (w.mBlockchain.length + (2 ^ 64 - 1) + currencyLockedTxAllowedDeltaBlocks) % 2 ^ 64)
  else decide (unlockTime.toNat ≤ now + currencyLockedTxAllowedDeltaSeconds)

/-- `is_transfer_unlocked` -/
def Wallet2.isTransferUnlocked (now : Nat) (w : Wallet2) (td : TransferDetails) : Bool :=
  w.isTxSpendtimeUnlocked now td.mTx.unlockTime &&
    decide (td.mBlockHeight + defaultTxSpendableAge ≤ w.mBlockchain.length)

/-- `is_mixattr_applicable_for_fake_outs_counter`. -/
def isMixattrApplicableForFakeOutsCounter (mixAttr : UInt8) (fakeAttrCount : Nat) : Bool :=
  Storage.mixAttrAllows mixAttr (fakeAttrCount + 1)

/-- `std::map<uint64_t, std::list<size_t>>`, by rising amounts. -/
abbrev FreeAmounts := List (UInt64 × List Nat)

/-- `found_free_amounts[amount].push_back(i)`. -/
def FreeAmounts.add (amount : UInt64) (i : Nat) : FreeAmounts → FreeAmounts
  | [] => [(amount, [i])]
  | (a, is) :: rest =>
    if amount < a then (amount, [i]) :: (a, is) :: rest
    else if amount = a then (a, is ++ [i]) :: rest
    else (a, is) :: FreeAmounts.add amount i rest

/-- The loop that fills `found_free_amounts`. -/
def findFreeAmounts (now fakeOutputsCount : Nat) (w : Wallet2) :
    (i : Nat) → List TransferDetails → FreeAmounts → Except WalletError FreeAmounts
  | _, [], free => .ok free
  | i, td :: rest, free =>
    if td.mSpent = false ∧ w.isTransferUnlocked now td = true then
      match td.mTx.vout[td.mInternalOutputIndex]? with
      | none => .error (.exn .undefinedBehaviour)
      | some ⟨amount, .toKey _ mixAttr⟩ =>
        findFreeAmounts now fakeOutputsCount w (i + 1) rest
          (if isMixattrApplicableForFakeOutsCounter mixAttr fakeOutputsCount then free.add amount i
          else free)
      | some _ => .error .badGet
    else findFreeAmounts now fakeOutputsCount w (i + 1) rest free

/-- The last entry of the map loses its last index, and goes with the last one. -/
def FreeAmounts.popLast (free : FreeAmounts) : FreeAmounts :=
  match free.getLast? with
  | none => []
  | some (amount, is) =>
    if is.dropLast = [] then free.dropLast else free.dropLast ++ [(amount, is.dropLast)]

/-- `select_indices_for_transfer`: the money and the indexes. Every round but the
last takes an index off the map. -/
def selectIndicesLoop (neededMoney : UInt64) :
    (fuel : Nat) → FreeAmounts → (foundMoney : UInt64) → (selectedIndexes : List Nat) →
    UInt64 × List Nat
  | 0, _, foundMoney, selected => (foundMoney, selected)
  | fuel + 1, free, foundMoney, selected =>
    if foundMoney < neededMoney ∧ free ≠ [] then
      -- the smallest amount that is enough, if there is one
      match free.find? fun e => decide (neededMoney - foundMoney ≤ e.1) with
      | some (amount, i :: is) =>
        (foundMoney + amount, selected ++ [(i :: is).getLast (List.cons_ne_nil i is)])
      | some (_, []) | none =>
        match free.getLast? with
        | none | some (_, []) => (0, selected)
        | some (amount, i :: is) =>
          selectIndicesLoop neededMoney fuel free.popLast (foundMoney + amount)
            (selected ++ [(i :: is).getLast (List.cons_ne_nil i is)])
    else (foundMoney, selected)

/-- `select_indices_for_transfer` -/
def selectIndicesForTransfer (free : FreeAmounts) (neededMoney : UInt64) : UInt64 × List Nat :=
  selectIndicesLoop neededMoney ((free.map fun e => e.2.length).sum + 1) free 0 []

/-- `select_transfers` -/
def selectTransfers (now : Nat) (neededMoney : UInt64) (fakeOutputsCount : Nat) (w : Wallet2) :
    Except WalletError (UInt64 × List Nat) := do
  let free ← findFreeAmounts now fakeOutputsCount w 0 w.mTransfers []
  return selectIndicesForTransfer free neededMoney

/-! ## Sources -/

/-- The other outputs of a ring: sorted, without the real one, as many as asked
for. -/
def fakeOutputs (fakeOutputsCount : Nat) (real : UInt64) (outs : List OutEntry) :
    List (UInt64 × PublicKey) :=
  (((outs.insertionSort fun a b => a.globalAmountIndex ≤ b.globalAmountIndex).filter
    fun oe => oe.globalAmountIndex ≠ real).take fakeOutputsCount).map
      fun oe => (oe.globalAmountIndex, oe.outKey)

/-- `get_tx_pub_key_from_extra`. -/
def getTxPubKeyFromExtra (env : Env) (tx : Transaction) : Except WalletError PublicKey :=
  match parseAndValidateTxExtra env tx.toTransactionPrefix with
  | .error ex => .error (.exn ex)
  | .ok (_, info) => .ok info.mTxPubKey

/-- One source: the real output goes in front of the first with an index as high. -/
def makeSource (env : Env) (fakeOutputsCount : Nat) (td : TransferDetails) (outs : List OutEntry) :
    Except WalletError TxSourceEntry :=
  match td.mTx.vout[td.mInternalOutputIndex]? with
  | none => .error (.exn .undefinedBehaviour)
  | some ⟨amount, .toKey key _⟩ =>
    let fakes := fakeOutputs fakeOutputsCount td.mGlobalOutputIndex outs
    let at' := fakes.findIdx fun a => decide (td.mGlobalOutputIndex ≤ a.1)
    match getTxPubKeyFromExtra env td.mTx with
    | .error ex => .error ex
    | .ok realOutTxKey => .ok
      { outputs := fakes.insertIdx at' (td.mGlobalOutputIndex, key)
        realOutput := at'
        realOutTxKey
        realOutputInTxIndex := td.mInternalOutputIndex
        amount }
  | some _ => .error .badGet

/-- The loop over `selected_transfers`; without an answer of the daemon there are
no others. -/
def makeSources (env : Env) (fakeOutputsCount : Nat) :
    List TransferDetails → List (List OutEntry) → Except WalletError (List TxSourceEntry)
  | [], _ => .ok []
  | td :: tds, outs => do
    let src ← makeSource env fakeOutputsCount td (outs.headD [])
    let rest ← makeSources env fakeOutputsCount tds outs.tail
    return src :: rest

/-! ## Building the transaction -/

/-- A sort by amount, `std::sort`: equal amounts in any order. -/
structure AmountSort where
  sort : List TxDestinationEntry → List TxDestinationEntry
  perm : ∀ l, (sort l).Perm l
  sorted : ∀ l, (sort l).Pairwise fun a b => a.amount ≤ b.amount

/-- What a transfer asks of others: keys, the daemon, an order for the outputs. -/
structure TransferEnv where
  we : WalletEnv
  kd : KeyDerivation
  /-- `keypair::generate` -/
  txkey : SecretKey
  now : Nat
  shuffle : AmountSort
  generateRingSignature : (prefixHash : Hash) → KeyImage → TxSourceEntry → List Signature
  getRandomOuts : (amounts : List UInt64) → (outsCount : Nat) → RpcAnswer (List (List OutEntry))
  checkConnection : Bool
  /-- `current_blocks_median` of `/getinfo` -/
  getInfo : RpcAnswer Nat
  sendRawTransaction : Blob → RpcAnswer Unit
  accountAddressAsStr : AccountPublicAddress → Blob
  aliasForAddress : Blob → Blob

/-- `absolute_output_offsets_to_relative`. -/
def absoluteOutputOffsetsToRelative (off : List UInt64) : List UInt64 :=
  let res := off.insertionSort (· ≤ ·)
  match res with
  | [] => []
  | first :: rest => first :: List.zipWith (· - ·) rest res

/-- The input of a source. -/
def constructInput (img : ImageDerivation) (acc : AccountBase) (src : TxSourceEntry) : Option Txin :=
  match src.outputs[src.realOutput]? with
  | none => none
  | some real =>
    match img.generateKeyImageHelper acc src.realOutTxKey src.realOutputInTxIndex with
    | none => none
    | some (pub, image) =>
      if pub ≠ real.2 then none
      else some (.toKey src.amount
        (absoluteOutputOffsetsToRelative (src.outputs.map Prod.fst)) image)

/-- The inputs of all sources. -/
def constructInputs (img : ImageDerivation) (acc : AccountBase) :
    List TxSourceEntry → Option (List Txin)
  | [] => some []
  | src :: rest =>
    match constructInput img acc src, constructInputs img acc rest with
    | some i, some is => some (i :: is)
    | _, _ => none

/-- The outputs, from index `outputIndex` on. -/
def constructDestOuts (kd : KeyDerivation) (txSecKey : SecretKey) :
    (outputIndex : Nat) → List TxDestinationEntry → Option (List TxOut)
  | _, [] => some []
  | outputIndex, de :: rest =>
    if de.amount = 0 then none
    else
      match constructTxOut kd de.addr txSecKey outputIndex de.amount,
          constructDestOuts kd txSecKey (outputIndex + 1) rest with
      | some o, some os => some (o :: os)
      | _, _ => none

/-- The key image of an input. -/
def inputImage? : Txin → Option KeyImage
  | .toKey _ _ kImage => some kImage
  | _ => none

/-- `construct_tx`; nothing where it returns `false`. -/
def constructTx (te : TransferEnv) (acc : AccountBase) (sources : List TxSourceEntry)
    (destinations : List TxDestinationEntry) (extra : Blob) (unlockTime : UInt64) :
    Option Transaction :=
  match constructInputs te.we.img acc sources with
  | none => none
  | some vin =>
    match constructDestOuts te.kd te.txkey 0 (te.shuffle.sort destinations) with
    | none => none
    | some vout =>
      if sumAmounts (sources.map (·.amount)) < sumAmounts (vout.map (·.amount)) then none
      else
        let tx : TransactionPrefix :=
          { version := UInt64.ofNat currentTransactionVersion
            unlockTime
            vin
            vout
            extra := extra ++ txExtraTagPubkey :: bytesOfPod 32 (te.kd.pub te.txkey).toNat }
        some { tx with
          signatures := List.zipWith (fun src i => te.generateRingSignature
            (te.we.env.hashPrefix tx) ((inputImage? i).getD 0) src) sources vin }

/-! ## The transfer -/

/-- The arguments of `transfer`. -/
structure TransferOrder where
  dsts : List TxDestinationEntry
  fakeOutputsCount : Nat
  unlockTime : UInt64
  fee : UInt64
  extra : Blob
  destinationSplitStrategy : SplitStrategy
  dustPolicy : TxDustPolicy

/-- The loop over the destinations: `needed_money` from what it is so far. -/
def addNeeded : (neededMoney : UInt64) → List TxDestinationEntry → Except WalletError UInt64
  | neededMoney, [] => .ok neededMoney
  | neededMoney, dt :: rest =>
    if dt.amount = 0 then .error .zeroDestination
    else if neededMoney + dt.amount < dt.amount then .error .txSumOverflow
    else addNeeded (neededMoney + dt.amount) rest

/-- The fee and all destinations, with the check for overflow. -/
def computeNeededMoney (o : TransferOrder) : Except WalletError UInt64 :=
  if o.dsts = [] then .error .zeroDestination else addNeeded o.fee o.dsts

/-- Other outputs for the rings, if they are wanted. -/
def askRandomOuts (te : TransferEnv) (fakeOutputsCount : Nat) (tds : List TransferDetails) :
    Except WalletError (List (List OutEntry)) :=
  if fakeOutputsCount = 0 then .ok []
  else if tds.any fun td => decide (td.mTx.vout.length ≤ td.mInternalOutputIndex) then
    .error (.walletInternal "m_internal_output_index is greater or equal to outputs count")
  else
    match (te.getRandomOuts (tds.map TransferDetails.amount) (fakeOutputsCount + 1)).check
        "getrandom_outs.bin" .getRandomOuts with
    | .error ex => .error ex
    | .ok outs =>
      if outs.length ≠ tds.length then
        .error (.walletInternal
          "daemon returned wrong response for getrandom_outs.bin, wrong amounts count")
      else if outs.any fun amountOuts => decide (amountOuts.length < fakeOutputsCount) then
        .error .notEnoughOutsToMix
      else .ok outs

/-- The change: what was found and not needed, to the wallet itself. -/
def makeChange (w : Wallet2) (foundMoney neededMoney : UInt64) : TxDestinationEntry :=
  if neededMoney < foundMoney then ⟨foundMoney - neededMoney, w.mAccount.keys.mAccountAddress⟩
  else .blank

/-- The destinations taken apart, and the dust. -/
def splitDestinations (o : TransferOrder) (change : TxDestinationEntry) :
    Except WalletError (List TxDestinationEntry × UInt64) :=
  match o.destinationSplitStrategy o.dsts change o.dustPolicy.dustThreshold with
  | none => .error (.exn .undefinedBehaviour)
  | some (splitted, dust) =>
    if o.dustPolicy.dustThreshold < dust then .error (.walletInternal "invalid dust value")
    else if dust ≠ 0 ∧ o.dustPolicy.addToFee = false then
      .ok (splitted ++ [⟨dust, o.dustPolicy.addrForDust⟩], dust)
    else .ok (splitted, dust)

/-- A transaction that has been built, with what it was built from. -/
structure BuiltTransfer where
  tx : Transaction
  selected : List Nat
  foundMoney : UInt64
  neededMoney : UInt64
  changeDts : TxDestinationEntry
  dust : UInt64

/-- `transfer` up to `construct_tx`. Nothing has been written by then. -/
def buildTransfer (te : TransferEnv) (o : TransferOrder) (w : Wallet2) :
    Except WalletError BuiltTransfer := do
  let neededMoney ← computeNeededMoney o
  let found ← selectTransfers te.now neededMoney o.fakeOutputsCount w
  if found.1 < neededMoney then throw (.notEnoughMoney found.1 (neededMoney - o.fee) o.fee)
  else
    let tds := found.2.filterMap fun i => w.mTransfers[i]?
    let outs ← askRandomOuts te o.fakeOutputsCount tds
    let sources ← makeSources te.we.env o.fakeOutputsCount tds outs
    let changeDts := makeChange w found.1 neededMoney
    let split ← splitDestinations o changeDts
    match constructTx te w.mAccount sources split.1 o.extra o.unlockTime with
    | none => throw .txNotConstructed
    | some tx => return ⟨tx, found.2, found.1, neededMoney, changeDts, split.2⟩

/-- The checks before the transaction is out, and the daemon's word on it. The
size limit `update_current_tx_limit` keeps is only for the message. -/
def sendBuilt (te : TransferEnv) (tx : Transaction) (w : Wallet2) : Except WalletError Unit :=
  if te.checkConnection = false then .error (.noConnectionToDaemon "check_connection error")
  else
    match te.getInfo.check "getinfo" .getBlocks with
    | .error ex => .error ex
    | .ok currentBlocksMedian =>
      if currentBlocksMedian < getBlockGrantedFullRewardZone w.mLocalBcHeight.toNat then
        .error (.getBlocks "bad median size")
      else if getMaxTransactionBlobSize w.mLocalBcHeight.toNat ≤
          getObjectBlobsize te.we.env tx.toTransactionPrefix then .error .txTooBig
      else if tx.vin.any fun i => (inputImage? i).isNone then .error .unexpectedTxinType
      else (te.sendRawTransaction (txToBlob tx)).check "sendrawtransaction" .txRejected

/-- The recipients, separated by commas. -/
def recipientStr (te : TransferEnv) (dsts : List TxDestinationEntry) : Blob :=
  (dsts.map fun d => te.accountAddressAsStr d.addr).foldl (fun recipient addr =>
    if recipient = [] then addr else recipient ++ 44 :: 32 :: addr) []

/-- `add_sent_unconfirmed_tx`. -/
def Wallet2.addSentUnconfirmedTx (te : TransferEnv) (tx : Transaction) (changeAmount : UInt64)
    (recipient : Blob) (w : Wallet2) : Wallet2 :=
  let utd : UnconfirmedTransferDetails :=
    { mTx := tx
      mChange := changeAmount
      mSentTime := te.now
      mRecipient := recipient
      mRecipientAlias := te.aliasForAddress recipient }
  { w with mUnconfirmedTxs := w.mUnconfirmedTxs.insert (getTransactionHash te.we.env tx) utd }

/-- `it->m_spent = true` for the selected ones. -/
def Wallet2.spendSelected (selected : List Nat) (w : Wallet2) : Wallet2 :=
  { w with
    mTransfers := selected.foldl (fun tds i => tds.modify i TransferDetails.spend) w.mTransfers }

/-- `transfer`. -/
def transfer (te : TransferEnv) (o : TransferOrder) : WalletM Transaction := do
  let built ← reads fun w => buildTransfer te o w
  reads fun w => sendBuilt te built.tx w
  modify fun w => (w.addSentUnconfirmedTx te built.tx built.changeDts.amount
    (recipientStr te o.dsts)).spendSelected built.selected
  return built.tx

end DarknetSpace
