import DarknetSpace.Sync.Protocol
import Mathlib.Data.Multiset.Filter

/-!
# The wallet (`wallet2`)

A wallet reads blocks one after the other: of each transaction it keeps the
outputs that are its own (`m_transfers`, and `m_key_images` to find them by key
image), marks those an input spends, and notes payments and transfers. A block
that is no longer on the chain is taken back by `detach_blockchain`.

In the middle of a transaction the wallet asks the daemon for the indexes of its
outputs, and what it wrote before a throw stays written: its functions are
`EStateM` computations. Callbacks, logs and the amount of money they print are
left out.
-/

namespace DarknetSpace

open StateExn

/-! ## Data -/

structure AccountBase where
  keys : AccountKeys
  mSpendSecretKey : SecretKey
  mCreationTimestamp : UInt64
  deriving DecidableEq

structure TransferDetails where
  mBlockHeight : Nat
  mTx : Transaction
  mInternalOutputIndex : Nat
  mGlobalOutputIndex : UInt64
  mSpent : Bool
  mKeyImage : KeyImage
  deriving DecidableEq

/-- `transfer_details::amount`. -/
def TransferDetails.amount (td : TransferDetails) : UInt64 :=
  (td.mTx.vout[td.mInternalOutputIndex]?.map (·.amount)).getD 0

structure UnconfirmedTransferDetails where
  mTx : Transaction
  mChange : UInt64
  mSentTime : Nat
  mRecipient : Blob
  mRecipientAlias : Blob
  deriving DecidableEq

structure PaymentDetails where
  mTxHash : Hash
  mAmount : UInt64
  mBlockHeight : Nat
  mUnlockTime : UInt64
  deriving DecidableEq

structure WalletTransferInfoDetails where
  rcv : List UInt64
  spn : List UInt64
  deriving DecidableEq

/-- `wallet_transfer_info`; the ids are in hexadecimal there, and no payment id
is the empty string. -/
structure WalletTransferInfo where
  amount : UInt64
  timestamp : UInt64
  txHash : Hash
  height : UInt64
  unlockTime : UInt64
  txBlobSize : UInt32
  paymentId : Option Hash
  recipient : Blob
  recipientAlias : Blob
  isIncome : Bool
  fee : UInt64
  td : WalletTransferInfoDetails
  tx : Transaction
  deriving DecidableEq

/-- `currency::transaction()`. -/
def Transaction.blank : Transaction where
  version := 0
  unlockTime := 0
  vin := []
  vout := []
  extra := []
  signatures := []

def WalletTransferInfo.blank : WalletTransferInfo where
  amount := 0
  timestamp := 0
  txHash := nullHash
  height := 0
  unlockTime := 0
  txBlobSize := 0
  paymentId := none
  recipient := []
  recipientAlias := []
  isIncome := false
  fee := 0
  td := ⟨[], []⟩
  tx := .blank

/-- `money_transfer2_details`. -/
structure MoneyTransfer2Details where
  receiveIndices : List Nat
  spentIndices : List Nat

/-- `wallet2`, less its connection, its files and its callback. -/
structure Wallet2 where
  mAccount : AccountBase
  mBlockchain : List Hash
  mLocalBcHeight : UInt64
  mUnconfirmedTxs : Map Hash UnconfirmedTransferDetails
  mTransfers : List TransferDetails
  /-- an unordered multimap: the order of its entries is nobody's -/
  mPayments : Multiset (Hash × PaymentDetails)
  mKeyImages : Map KeyImage Nat
  mTransferHistory : List WalletTransferInfo
  mUnconfirmedInTransfers : Map Hash Transaction
  deriving DecidableEq

/-- What a wallet throws, and the undefined behaviour it can run into. -/
inductive WalletError where
  | noConnectionToDaemon (request : String)
  | daemonBusy (request : String)
  | getOutIndices (status : String)
  | getBlocks (status : String)
  | walletInternal (message : String)
  | txExtraParse
  | accOutsLookup
  | txParse
  | blockParse
  | badGet
  | zeroDestination
  | txSumOverflow
  | notEnoughMoney (found needed fee : UInt64)
  | getRandomOuts (status : String)
  | notEnoughOutsToMix
  | txNotConstructed
  | txTooBig
  | unexpectedTxinType
  | txRejected (status : String)
  | exn (ex : Exn)
  deriving DecidableEq

abbrev WalletM := EStateM WalletError Wallet2

inductive RpcStatus where
  | ok
  | busy
  | other (text : String)
  deriving DecidableEq

/-- What comes back from a call to the daemon. -/
inductive RpcAnswer (α : Type) where
  | none
  | response (status : RpcStatus) (res : α)

/-- The checks behind every call: a connection, a daemon that is not busy, and
`CORE_RPC_STATUS_OK`. -/
def RpcAnswer.check {α : Type} (request : String) (failed : String → WalletError) :
    RpcAnswer α → Except WalletError α
  | .none => .error (.noConnectionToDaemon request)
  | .response .busy _ => .error (.daemonBusy request)
  | .response (.other text) _ => .error (failed text)
  | .response .ok res => .ok res

/-- `generate_key_image_helper`: the one-time public key of output `i` under a
transaction key and its key image, nothing where the transaction key is no
point. -/
structure ImageDerivation where
  generateKeyImageHelper : AccountBase → (txPublicKey : PublicKey) → (i : Nat) →
    Option (PublicKey × KeyImage)

/-- What a wallet finds outside itself: the primitives, and the daemon's answers
to `get_o_indexes` while it reads one block. -/
structure WalletEnv where
  env : Env
  img : ImageDerivation
  oIndexes : Hash → RpcAnswer (List UInt64)

/-! ## Helpers of `currency_format_utils` -/

/-- `lookup_acc_outs` from output `i` on: the indexes of the account's outputs
and their sum. -/
def lookupAccOuts (env : Env) (acc : AccountKeys) (txPubKey : PublicKey) :
    (i : Nat) → List TxOut → Option (List Nat × UInt64)
  | _, [] => some ([], 0)
  | i, ⟨amount, .toKey key _⟩ :: rest =>
    (lookupAccOuts env acc txPubKey (i + 1) rest).map fun (outs, money) =>
      if env.isOutToAcc acc key txPubKey i then (i :: outs, amount + money) else (outs, money)
  | _, _ :: _ => none

def txUserDataTagPaymentId : UInt8 := 0x00

/-- `get_payment_id_from_user_data`; the length byte is a signed `char`, and a
negative one takes all there is. -/
def getPaymentIdFromUserData : Blob → Option Blob
  | tag :: len :: rest =>
    if tag ≠ txUserDataTagPaymentId then none
    else some (if len < 128 then rest.take len.toNat else rest)
  | _ => none

/-- `get_payment_id_from_tx_extra` into a hash. Its callers have parsed the
extra before. -/
def getPaymentIdFromTxExtra (env : Env) (tx : Transaction) : Option Hash :=
  match parseAndValidateTxExtra env tx.toTransactionPrefix with
  | .ok (true, info) =>
    match getPaymentIdFromUserData info.mUserDataBlob with
    | some blob => if blob.length = 32 then some (BitVec.ofNat 256 (podOfBytes blob)) else none
    | none => none
  | _ => none

/-! ## Reading a transaction -/

/-- `process_unconfirmed`: the transaction is pending no more; who it went to. -/
def processUnconfirmed (env : Env) (tx : Transaction) : WalletM (Blob × Blob) := do
  let w ← get
  match w.mUnconfirmedTxs[getTransactionHash env tx]? with
  | none => return ([], [])
  | some utd =>
    set { w with mUnconfirmedTxs := w.mUnconfirmedTxs.erase (getTransactionHash env tx) }
    return (utd.mRecipient, utd.mRecipientAlias)

/-- One output of the wallet. The entry is in `m_transfers` before its key is
checked. -/
def receiveOut (we : WalletEnv) (tx : Transaction) (txPubKey : PublicKey) (height : Nat)
    (oIndexes : List UInt64) (o : Nat) : WalletM Unit := do
  let w ← get
  match tx.vout[o]? with
  | none => throw (.walletInternal "wrong out in transaction")
  | some out =>
    match we.img.generateKeyImageHelper w.mAccount txPubKey o, out.target with
    | some (pub, image), .toKey key _ =>
      let td : TransferDetails :=
        { mBlockHeight := height
          mTx := tx
          mInternalOutputIndex := o
          mGlobalOutputIndex := oIndexes.getD o 0
          mSpent := false
          mKeyImage := image }
      set { w with mTransfers := w.mTransfers ++ [td] }
      if pub ≠ key then
        throw (.walletInternal
          "key_image generated ephemeral public key not matched with output_key")
      modify fun w => { w with mKeyImages := w.mKeyImages.insert image (w.mTransfers.length - 1) }
    | _, _ => throw (.exn .undefinedBehaviour)

def receiveOuts (we : WalletEnv) (tx : Transaction) (txPubKey : PublicKey) (height : Nat)
    (oIndexes : List UInt64) : List Nat → WalletM Unit
  | [] => pure ()
  | o :: outs => do
    receiveOut we tx txPubKey height oIndexes o
    receiveOuts we tx txPubKey height oIndexes outs

/-- `get_o_indexes.bin`, and as many indexes as outputs. -/
def askOIndexes (we : WalletEnv) (tx : Transaction) : Except WalletError (List UInt64) := do
  let res ← (we.oIndexes (getTransactionHash we.env tx)).check "get_o_indexes.bin" .getOutIndices
  if res.length ≠ tx.vout.length then
    throw (.walletInternal "transactions outputs size not match with response size")
  return res

/-- What of a transaction is the account's. -/
structure AccOuts where
  txPubKey : PublicKey
  outs : List Nat
  got : UInt64
  deriving DecidableEq

/-- `parse_and_validate_tx_extra` and `lookup_acc_outs`. -/
def lookupTx (env : Env) (acc : AccountKeys) (tx : Transaction) : Except WalletError AccOuts :=
  match parseAndValidateTxExtra env tx.toTransactionPrefix with
  | .error ex => .error (.exn ex)
  | .ok (false, _) => .error .txExtraParse
  | .ok (true, info) =>
    match lookupAccOuts env acc info.mTxPubKey 0 tx.vout with
    | none => .error .accOutsLookup
    | some (outs, got) => .ok ⟨info.mTxPubKey, outs, got⟩

/-- "good news - got money!" The outputs that came in, `mtd.receive_indices`. -/
def receive (we : WalletEnv) (tx : Transaction) (height : Nat) (found : AccOuts) :
    WalletM (List Nat) :=
  if found.outs ≠ [] ∧ found.got ≠ 0 then do
    let oIndexes ← reads fun _ => askOIndexes we tx
    receiveOuts we tx found.txPubKey height oIndexes found.outs
    return found.outs
  else return []

/-- An input whose key image is known spends the output behind it. -/
def spendInput (kImage : KeyImage) : WalletM Bool := do
  let w ← get
  match w.mKeyImages[kImage]? with
  | none => return false
  | some i =>
    match w.mTransfers[i]? with
    | none => throw (.exn .undefinedBehaviour)
    | some td =>
      set { w with mTransfers := w.mTransfers.set i { td with mSpent := true } }
      return true

/-- The loop over the inputs: what was spent, and through which of them. The
index counts `txin_to_key` inputs alone. -/
def spendInputs : (i : Nat) → List Txin → WalletM (UInt64 × List Nat)
  | _, [] => return (0, [])
  | i, .toKey amount _ kImage :: rest => do
    let hit ← spendInput kImage
    let (spent, indices) ← spendInputs (i + 1) rest
    return if hit then (amount + spent, i :: indices) else (spent, indices)
  | i, _ :: rest => spendInputs i rest

/-- How `fill_transfer_details` got on: to its end, back at an index past the
end, or out by `boost::bad_get`. -/
inductive Filled where
  | complete
  | stopped
  | badGet
  deriving DecidableEq

def fillSpn (tx : Transaction) : List Nat → List UInt64 × Filled
  | [] => ([], .complete)
  | si :: rest =>
    match tx.vin[si]? with
    | none => ([], .stopped)
    | some (.toKey amount _ _) =>
      let (amounts, filled) := fillSpn tx rest
      (amount :: amounts, filled)
    | some _ => ([], .badGet)

def fillRcv (tx : Transaction) : List Nat → List UInt64
  | [] => []
  | ri :: rest =>
    match tx.vout[ri]? with
    | none => []
    | some o => o.amount :: fillRcv tx rest

/-- `fill_transfer_details`. -/
def fillTransferDetails (tx : Transaction) (td : MoneyTransfer2Details) :
    WalletTransferInfoDetails × Bool :=
  match fillSpn tx td.spentIndices with
  | (spn, .complete) => (⟨fillRcv tx td.receiveIndices, spn⟩, true)
  | (spn, .stopped) => (⟨[], spn⟩, true)
  | (spn, .badGet) => (⟨[], spn⟩, false)

/-- `prepare_wti`: the entry, and whether it was filled to its end. -/
def prepareWti (env : Env) (height timestamp : UInt64) (tx : Transaction) (amount : UInt64)
    (td : MoneyTransfer2Details) : WalletTransferInfo × Bool :=
  let (details, filled) := fillTransferDetails tx td
  let wti := { WalletTransferInfo.blank with
    tx, amount, height
    paymentId := getPaymentIdFromTxExtra env tx
    td := details }
  if ¬ filled then (wti, false)
  else ({ wti with
    timestamp
    fee := if isCoinbase tx.toTransactionPrefix then 0 else getTxFee tx.toTransactionPrefix
    unlockTime := tx.unlockTime
    txBlobSize := UInt32.ofNat (getObjectBlobsize env tx.toTransactionPrefix)
    txHash := getTransactionHash env tx }, true)

/-- `m_transfer_history` has the entry before it is filled. -/
def noteTransfer (wti : WalletTransferInfo × Bool) (isIncome : Bool)
    (recipient recipientAlias : Blob) : WalletM Unit := do
  if ¬ wti.2 then
    modify fun w => { w with mTransferHistory := w.mTransferHistory ++ [wti.1] }
    throw .badGet
  modify fun w => { w with mTransferHistory := w.mTransferHistory ++
    [{ wti.1 with isIncome, recipient, recipientAlias }] }

def handleMoneyReceived2 (env : Env) (b : Block) (tx : Transaction) (amount : UInt64)
    (td : MoneyTransfer2Details) : WalletM Unit :=
  noteTransfer (prepareWti env (getBlockHeight b) b.timestamp tx amount td) true [] []

def handleMoneySpent2 (env : Env) (b : Block) (inTx : Transaction) (amount : UInt64)
    (td : MoneyTransfer2Details) (recipient recipientAlias : Blob) : WalletM Unit :=
  noteTransfer (prepareWti env (getBlockHeight b) b.timestamp inTx amount td) false recipient
    recipientAlias

/-- A payment under a payment id. -/
def notePayment (env : Env) (tx : Transaction) (height : Nat) (got spent : UInt64) :
    WalletM Unit := do
  match getPaymentIdFromTxExtra env tx with
  | none => pure ()
  | some paymentId =>
    let received := if spent < got then got - spent else 0
    if got ≠ 0 ∧ 0 < received ∧ nullHash ≠ paymentId then
      modify fun w => { w with mPayments := (paymentId, {
        mTxHash := getTransactionHash env tx
        mAmount := received
        mBlockHeight := height
        mUnlockTime := tx.unlockTime }) ::ₘ w.mPayments }

/-- What the transaction moved, for the history. -/
def noteTransfers (env : Env) (b : Block) (tx : Transaction) (got spent : UInt64)
    (mtd : MoneyTransfer2Details) (recipient recipientAlias : Blob) : WalletM Unit := do
  if spent ≠ 0 then
    if spent > got then
      handleMoneySpent2 env b tx (spent - got) mtd recipient recipientAlias
    else
      handleMoneySpent2 env b tx spent mtd recipient recipientAlias
      handleMoneyReceived2 env b tx got mtd
  else if got ≠ 0 then
    handleMoneyReceived2 env b tx got mtd

/-- `process_new_transaction`. -/
def processNewTransaction (we : WalletEnv) (tx : Transaction) (height : Nat) (b : Block) :
    WalletM Unit := do
  let recipient ← processUnconfirmed we.env tx
  let found ← reads fun w => lookupTx we.env w.mAccount.keys tx
  let receiveIndices ← receive we tx height found
  let spent ← spendInputs 0 tx.vin
  notePayment we.env tx height found.got spent.1
  noteTransfers we.env b tx found.got spent.1 ⟨receiveIndices, spent.2⟩ recipient.1 recipient.2

/-! ## Reading a block -/

/-- The transactions of a block, one after the other as they parse. -/
def processTxs (we : WalletEnv) (height : Nat) (b : Block) : List Blob → WalletM Unit
  | [] => pure ()
  | txblob :: rest => do
    match we.env.parseTx txblob with
    | none => throw .txParse
    | some tx =>
      processNewTransaction we tx height b
      processTxs we height b rest

/-- Blocks from before the account was made are not looked at, give or take a
day. -/
def recentEnough (acc : AccountBase) (b : Block) : Bool :=
  b.timestamp + 60 * 60 * 24 > acc.mCreationTimestamp

def processEntryTxs (we : WalletEnv) (acc : AccountBase) (b : Block) (txs : List Blob)
    (height : Nat) : WalletM Unit :=
  if recentEnough acc b then do
    processNewTransaction we b.minerTx height b
    processTxs we height b txs
  else pure ()

/-- `process_new_blockchain_entry`. -/
def processNewBlockchainEntry (we : WalletEnv) (b : Block) (txs : List Blob) (blId : Hash)
    (height : Nat) : WalletM Unit := do
  let w ← get
  if height ≠ w.mBlockchain.length then
    throw (.walletInternal "current_index does not match m_blockchain.size()")
  else
    processEntryTxs we w.mAccount b txs height
    modify fun w => { w with
      mBlockchain := w.mBlockchain ++ [blId]
      mLocalBcHeight := w.mLocalBcHeight + 1 }

/-! ## Taking blocks back -/

def eraseKeyImages : List TransferDetails → WalletM Unit
  | [] => pure ()
  | td :: rest => do
    let w ← get
    if w.mKeyImages.contains td.mKeyImage then
      set { w with mKeyImages := w.mKeyImages.erase td.mKeyImage }
      eraseKeyImages rest
    else throw (.walletInternal "key image not found")

/-- `detach_blockchain`. -/
def detachBlockchain (height : Nat) : WalletM Unit := do
  let w ← get
  let kept := w.mTransfers.takeWhile fun td => decide (td.mBlockHeight < height)
  eraseKeyImages (w.mTransfers.drop kept.length)
  if w.mBlockchain.length < height then throw (.exn .undefinedBehaviour)
  else
    modify fun w => { w with
      mTransfers := kept
      mBlockchain := w.mBlockchain.take height
      mLocalBcHeight := w.mLocalBcHeight - UInt64.ofNat (w.mBlockchain.length - height)
      mPayments := w.mPayments.filter fun p => ¬ height ≤ p.2.mBlockHeight
      mTransferHistory := w.mTransferHistory.takeWhile fun wti => decide (wti.height.toNat < height)
      mUnconfirmedInTransfers := ∅ }

/-! ## Balances -/

def sumAmounts (amounts : List UInt64) : UInt64 := amounts.foldr (· + ·) 0

/-- `balance`. -/
def Wallet2.balance (w : Wallet2) : UInt64 :=
  sumAmounts ((w.mTransfers.filter fun td => ¬ td.mSpent).map TransferDetails.amount) +
    sumAmounts (w.mUnconfirmedTxs.values.map UnconfirmedTransferDetails.mChange)

/-- A new wallet after `clear`: the genesis block and nothing else. -/
def Wallet2.fresh (acc : AccountBase) (genesisId : Hash) : Wallet2 where
  mAccount := acc
  mBlockchain := [genesisId]
  mLocalBcHeight := 1
  mUnconfirmedTxs := ∅
  mTransfers := []
  mPayments := 0
  mKeyImages := ∅
  mTransferHistory := []
  mUnconfirmedInTransfers := ∅

end DarknetSpace
