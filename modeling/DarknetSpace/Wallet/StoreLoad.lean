import DarknetSpace.Wallet.Spendable
import DarknetSpace.Wallet.Password
import DarknetSpace.Wallet.Push

/-!
# Storing and loading a wallet (`wallet2::store`, `wallet2::load`)

One `serialize` for each record both writes and reads it. That of
`wallet_transfer_info` begins by `x.fee = 0`, meant for the files of older
versions that have no fee; in the direction of writing it empties the fee of the
wallet in memory just before the fee is written. The unlock time is not stored
at all and is taken from the transaction again.

An archive gives back what was put into it, the containers whole. Of the wallet,
`m_account` is in the file with the keys, and `m_unconfirmed_in_transfers` in no
file.
-/

namespace DarknetSpace

open StateExn

/-! ## Records in the archive -/

/-- What `serialize(wallet_transfer_info)` moves. -/
structure SavedTransferInfo where
  amount : UInt64
  timestamp : UInt64
  txHash : Hash
  height : UInt64
  txBlobSize : UInt32
  paymentId : Option Hash
  recipient : Blob
  isIncome : Bool
  td : WalletTransferInfoDetails
  tx : Transaction
  recipientAlias : Blob
  fee : UInt64

/-- `serialize(wallet_transfer_info)` into an archive: what is written, and the
entry behind it. -/
def WalletTransferInfo.save (x : WalletTransferInfo) : SavedTransferInfo × WalletTransferInfo :=
  let x := { x with fee := 0 }
  ({ amount := x.amount
     timestamp := x.timestamp
     txHash := x.txHash
     height := x.height
     txBlobSize := x.txBlobSize
     paymentId := x.paymentId
     recipient := x.recipient
     isIncome := x.isIncome
     td := x.td
     tx := x.tx
     recipientAlias := x.recipientAlias
     fee := x.fee }, x)

/-- `serialize(wallet_transfer_info)` out of an archive of that version. -/
def SavedTransferInfo.load (ver : Nat) (a : SavedTransferInfo) : WalletTransferInfo :=
  let x := { WalletTransferInfo.blank with
    fee := 0
    amount := a.amount
    timestamp := a.timestamp
    txHash := a.txHash
    height := a.height
    txBlobSize := a.txBlobSize
    paymentId := a.paymentId
    recipient := a.recipient
    isIncome := a.isIncome
    td := a.td
    tx := a.tx }
  if ver < 2 then x
  else
    let x := { x with recipientAlias := a.recipientAlias }
    if ver < 3 then x
    else { x with fee := a.fee, unlockTime := x.tx.unlockTime }

/-- `serialize(unconfirmed_transfer_details)` out of an archive of that version;
into one it writes every field. -/
def UnconfirmedTransferDetails.load (ver : Nat) (a : UnconfirmedTransferDetails) :
    UnconfirmedTransferDetails :=
  if ver < 2 then { a with mRecipient := [], mRecipientAlias := [] }
  else if ver < 3 then { a with mRecipientAlias := [] }
  else a

/-- What a wallet file holds, with the versions its classes were written at. -/
structure WalletArchive where
  version : Nat
  unconfirmedVersion : Nat
  transferInfoVersion : Nat
  mBlockchain : List Hash
  mTransfers : List TransferDetails
  mAccountPublicAddress : AccountPublicAddress
  mKeyImages : Map KeyImage Nat
  mUnconfirmedTxs : Map Hash UnconfirmedTransferDetails
  mPayments : Multiset (Hash × PaymentDetails)
  mTransferHistory : List SavedTransferInfo

/-- `wallet2::serialize` into an archive. `m_account_public_address` is the
account's: `generate` sets it so and `load` sees to it. -/
def Wallet2.save (w : Wallet2) : WalletArchive × Wallet2 :=
  ({ version := 8
     unconfirmedVersion := 3
     transferInfoVersion := 3
     mBlockchain := w.mBlockchain
     mTransfers := w.mTransfers
     mAccountPublicAddress := w.mAccount.keys.mAccountAddress
     mKeyImages := w.mKeyImages
     mUnconfirmedTxs := w.mUnconfirmedTxs
     mPayments := w.mPayments
     mTransferHistory := w.mTransferHistory.map fun x => x.save.1 },
   { w with mTransferHistory := w.mTransferHistory.map fun x => x.save.2 })

/-- `wallet2::serialize` out of an archive, behind the first of its returns. -/
def WalletArchive.load (a : WalletArchive) (w : Wallet2) : Wallet2 :=
  let w := { w with
    mBlockchain := a.mBlockchain
    mTransfers := a.mTransfers
    mKeyImages := a.mKeyImages }
  if a.version < 6 then w
  else
    let w := { w with
      mUnconfirmedTxs := a.mUnconfirmedTxs.map fun _ => .load a.unconfirmedVersion }
    if a.version < 7 then w
    else
      let w := { w with mPayments := a.mPayments }
      if a.version < 8 then w
      else { w with mTransferHistory := a.mTransferHistory.map (·.load a.transferInfoVersion) }

/-! ## Files -/

/-- What is found at `m_wallet_file`. -/
inductive WalletFile where
  | unreadable
  | archive (a : WalletArchive)

structure WalletFiles where
  keys : Option Blob
  wallet : Option WalletFile

inductive LoadError where
  | fileNotFound
  | keys (e : KeysError)
  | fileReadError
  | walletFilesDoesntCorrespond
  | undefinedBehaviour

/-- `store`, into a file that can be written. -/
def Wallet2.store (keys : Option Blob) (w : Wallet2) : WalletFiles × Wallet2 :=
  (⟨keys, some (.archive w.save.1)⟩, w.save.2)

/-- `load` of a new `wallet2`. -/
def loadWallet (f : KeysFormat AccountBase) (genesisId : Hash) (files : WalletFiles)
    (password : Blob) : Except LoadError Wallet2 :=
  if files.keys = none then .error .fileNotFound
  else
    match loadKeys f true password ⟨files.keys, none, []⟩ with
    | .error e _ => .error (.keys e)
    | .ok (_, account) _ =>
      -- what `clear` has made of it
      let w := Wallet2.fresh account genesisId
      match files.wallet with
      | none => .ok w
      | some .unreadable => .error .fileReadError
      | some (.archive a) =>
        -- an older archive has no address, and the one compared was never set
        if a.version < 5 then .error .undefinedBehaviour
        else
          let w := a.load w
          if a.mAccountPublicAddress.mSpendPublicKey ≠
                w.mAccount.keys.mAccountAddress.mSpendPublicKey ∨
              a.mAccountPublicAddress.mViewPublicKey ≠
                w.mAccount.keys.mAccountAddress.mViewPublicKey then
            .error .walletFilesDoesntCorrespond
          else
            let w := if w.mBlockchain = [] then { w with mBlockchain := [genesisId] } else w
            .ok { w with mLocalBcHeight := UInt64.ofNat w.mBlockchain.length }

/-! ## Surviving -/

/-- What a file is to give back. -/
structure Wallet2.RestoredAs (w w' : Wallet2) : Prop where
  blockchain : w'.mBlockchain = w.mBlockchain
  localBcHeight : w'.mLocalBcHeight = w.mLocalBcHeight
  transfers : w'.mTransfers = w.mTransfers
  keyImages : w'.mKeyImages = w.mKeyImages
  unconfirmedTxs : w'.mUnconfirmedTxs = w.mUnconfirmedTxs
  payments : w'.mPayments = w.mPayments
  transferHistory : w'.mTransferHistory = w.mTransferHistory

/-- Storing changes nothing in memory, and loading gives everything back. -/
structure Survives (f : KeysFormat AccountBase) (genesisId : Hash) (keys : Option Blob)
    (password : Blob) (w : Wallet2) : Prop where
  untouched : (w.store keys).2 = w
  restored : ∃ w', loadWallet f genesisId (w.store keys).1 password = .ok w' ∧ w.RestoredAs w'

/-- The wallet after an event, which may have thrown. -/
def Wallet2.after (we : WalletEnv) (w : Wallet2) (e : WalletEvent) : Wallet2 :=
  match e with
  | .block s => stateOf (processNewBlockchainEntry (we.serving s) s.b s.txs s.blId
      w.mBlockchain.length w)
  | .detach height => stateOf (detachBlockchain height w)
  | .send te o => stateOf (transfer { te with we } o w)
  | .cancel txid => stateOf (deleteUnconfirmedTx txid w)

/-! ## The height a wallet keeps -/

/-- It is that account's, and `m_local_bc_height` is the number of its ids. -/
structure Wallet2.CountsIds (acc : AccountBase) (w : Wallet2) : Prop where
  account : w.mAccount = acc
  height : w.mLocalBcHeight = UInt64.ofNat w.mBlockchain.length

theorem countsIds_chain {acc : AccountBase} : OfChain (Wallet2.CountsIds acc) := by
  intro w w' haccount hids hheight h
  refine ⟨haccount.trans h.account, ?_⟩
  rw [hids, hheight]
  exact h.height

section

variable {we : WalletEnv} {acc : AccountBase}

theorem keeps_countsIds_processNewBlockchainEntry (b : Block) (txs : List Blob) (blId : Hash)
    (height : Nat) : Keeps (Wallet2.CountsIds acc) (processNewBlockchainEntry we b txs blId height) := by
  unfold processNewBlockchainEntry
  refine Keeps.bind Keeps.get fun w => Keeps.ite (Keeps.throw _) ?_
  refine Keeps.bind (keeps_chain_processEntryTxs countsIds_chain _ _ _ _) fun _ =>
    Keeps.modify ?_
  intro v hv
  refine ⟨hv.account, ?_⟩
  show v.mLocalBcHeight + 1 = UInt64.ofNat (v.mBlockchain ++ [blId]).length
  rw [hv.height, List.length_append, List.length_singleton, UInt64.ofNat_add]
  rfl

theorem keeps_countsIds_detachBlockchain (height : Nat) :
    Keeps (Wallet2.CountsIds acc) (detachBlockchain height) := by
  intro w hw
  -- what the loop over the key images keeps, and the test before it relied on
  have hkept : ∀ tds, Keeps (fun v => v.mBlockchain = w.mBlockchain ∧ v.CountsIds acc)
      (eraseKeyImages tds) := fun tds =>
    Keeps.and (keeps_chain_eraseKeyImages holdsIds_chain tds)
      (keeps_chain_eraseKeyImages countsIds_chain tds)
  unfold detachBlockchain
  rw [bind_of_ok (get_apply w)]
  generalize w.mTransfers.drop _ = tds
  have herased := hkept tds w ⟨rfl, hw⟩
  cases herase : eraseKeyImages tds w with
  | error ex v =>
    rw [herase] at herased
    rw [bind_of_error herase]
    exact herased.2
  | ok _ v =>
    rw [herase, stateOf_ok] at herased
    obtain ⟨hids, hv⟩ := herased
    have hids : v.mBlockchain = w.mBlockchain := hids
    rw [bind_of_ok herase]
    by_cases hshort : w.mBlockchain.length < height
    · rw [if_pos hshort]
      exact hv
    · rw [if_neg hshort]
      refine ⟨hv.account, ?_⟩
      show v.mLocalBcHeight - UInt64.ofNat (v.mBlockchain.length - height) =
        UInt64.ofNat (v.mBlockchain.take height).length
      rw [hv.height, ← UInt64.ofNat_sub (Nat.sub_le _ _), List.length_take, hids]
      congr 1
      omega

theorem keeps_countsIds_transfer (te : TransferEnv) (o : TransferOrder) :
    Keeps (Wallet2.CountsIds acc) (transfer te o) := by
  unfold transfer
  refine Keeps.bind (Keeps.reads _) fun built => ?_
  refine Keeps.bind (Keeps.reads _) fun _ => ?_
  exact Keeps.bind (Keeps.modify fun _ h => ⟨h.account, h.height⟩) fun _ => Keeps.pure _

theorem keeps_countsIds_rechargeInputs (vin : List Txin) :
    Keeps (Wallet2.CountsIds acc) (rechargeInputs vin) := by
  have hone : ∀ k, Keeps (Wallet2.CountsIds acc) (rechargeInput k) := by
    intro k w hw
    unfold rechargeInput
    rw [bind_of_ok (get_apply w)]
    cases w.mKeyImages[k]? with
    | none => exact hw
    | some i =>
      cases htd : w.mTransfers[i]? with
      | none =>
        simp only [htd]
        exact hw
      | some td =>
        simp only [htd]
        exact ⟨hw.account, hw.height⟩
  induction vin with
  | nil => exact Keeps.pure _
  | cons x rest ih =>
    cases x with
    | gen _ | toScript _ _ _ | toScripthash _ _ _ _ _ => exact ih
    | toKey amount offsets kImage => exact Keeps.bind (hone _) fun _ => ih

theorem keeps_countsIds_giveUp (id : Hash) (utd : UnconfirmedTransferDetails) :
    Keeps (Wallet2.CountsIds acc) (giveUp id utd) :=
  Keeps.bind (keeps_countsIds_rechargeInputs _) fun _ => Keeps.modify fun _ h => ⟨h.account, h.height⟩

theorem keeps_countsIds_deleteUnconfirmedTx (txid : Blob) :
    Keeps (Wallet2.CountsIds acc) (deleteUnconfirmedTx txid) := by
  have hall : ∀ entries, Keeps (Wallet2.CountsIds acc) (giveUpAll entries) := by
    intro entries
    induction entries with
    | nil => exact Keeps.pure _
    | cons e rest ih => exact Keeps.bind (keeps_countsIds_giveUp _ _) fun _ => ih
  unfold deleteUnconfirmedTx
  refine Keeps.bind Keeps.get fun w => ?_
  refine Keeps.ite (Keeps.bind (hall _) fun _ => Keeps.pure _) ?_
  cases parsePaymentIdFromHexStr (txid.map toLower) with
  | none => exact Keeps.pure _
  | some id =>
    cases hid : w.mUnconfirmedTxs[id]? with
    | none =>
      simp only [hid]
      exact Keeps.pure _
    | some utd =>
      simp only [hid]
      exact Keeps.bind (keeps_countsIds_giveUp id utd) fun _ => Keeps.pure _

/-- One event. -/
theorem Wallet2.CountsIds.after {w : Wallet2} (h : w.CountsIds acc) (e : WalletEvent) :
    (w.after we e).CountsIds acc := by
  cases e with
  | block s => exact keeps_countsIds_processNewBlockchainEntry _ _ _ _ w h
  | detach height => exact keeps_countsIds_detachBlockchain height w h
  | send te o => exact keeps_countsIds_transfer _ _ w h
  | cancel txid => exact keeps_countsIds_deleteUnconfirmedTx txid w h

/-- Every run. -/
theorem Wallet2.CountsIds.foldl_after {w : Wallet2} (h : w.CountsIds acc) (es : List WalletEvent) :
    (es.foldl (Wallet2.after we) w).CountsIds acc := by
  induction es generalizing w with
  | nil => exact h
  | cons e es ih => exact ih (h.after e)

end

/-! ## What is lost -/

/-- A map gives back its values when what reads them changes none. -/
theorem map_load_current (m : Map Hash UnconfirmedTransferDetails) :
    (m.map fun _ => UnconfirmedTransferDetails.load 3) = m := by
  apply Std.ExtTreeMap.ext_getElem?
  intro id
  rw [Std.ExtTreeMap.getElem?_map]
  exact Option.map_id'

/-- An entry of the history comes back without its fee, and with the unlock time
of its transaction. -/
theorem load_save (x : WalletTransferInfo) :
    x.save.1.load 3 = { x with fee := 0, unlockTime := x.tx.unlockTime } := rfl

/-- An entry is stored as it is when it has no fee. -/
theorem save_snd_eq_self_iff (x : WalletTransferInfo) : x.save.2 = x ↔ x.fee = 0 := by
  constructor
  · intro h
    exact (congrArg WalletTransferInfo.fee h).symm
  · intro h
    show { x with fee := 0 } = x
    rw [← h]

theorem load_save_eq_self_iff (x : WalletTransferInfo) :
    x.save.1.load 3 = x ↔ x.fee = 0 ∧ x.unlockTime = x.tx.unlockTime := by
  rw [load_save]
  constructor
  · intro h
    exact ⟨(congrArg WalletTransferInfo.fee h).symm,
      (congrArg WalletTransferInfo.unlockTime h).symm⟩
  · rintro ⟨hfee, hunlock⟩
    rw [← hfee, ← hunlock]

theorem map_eq_self_iff {α : Type} (f : α → α) (l : List α) :
    l.map f = l ↔ ∀ x ∈ l, f x = x := by
  have hid : l.map f = l ↔ l.map f = l.map id := by rw [List.map_id]
  rw [hid, List.map_inj_left]
  rfl

/-- What the archive does not have stays as it was. -/
theorem load_save_wallet (w v : Wallet2) :
    w.save.1.load v = { w with
      mAccount := v.mAccount
      mLocalBcHeight := v.mLocalBcHeight
      mTransferHistory := w.mTransferHistory.map fun x => x.save.1.load 3
      mUnconfirmedInTransfers := v.mUnconfirmedInTransfers } := by
  have hload : w.save.1.load v = { w with
      mAccount := v.mAccount
      mLocalBcHeight := v.mLocalBcHeight
      mUnconfirmedTxs := w.mUnconfirmedTxs.map fun _ => .load 3
      mTransferHistory := (w.mTransferHistory.map fun x => x.save.1).map (·.load 3)
      mUnconfirmedInTransfers := v.mUnconfirmedInTransfers } := rfl
  rw [hload, map_load_current, List.map_map]
  rfl

/-- With the right password the file opens, and this is what it has. -/
theorem loadWallet_store {f : KeysFormat AccountBase} {genesisId : Hash} {keys : Option Blob}
    {password : Blob} {w : Wallet2} (hkeys : f.yields keys password = some w.mAccount) :
    loadWallet f genesisId (w.store keys).1 password = .ok
      { w with
        mBlockchain := if w.mBlockchain = [] then [genesisId] else w.mBlockchain
        mLocalBcHeight := UInt64.ofNat
          (if w.mBlockchain = [] then [genesisId] else w.mBlockchain).length
        mTransferHistory := w.mTransferHistory.map fun x => x.save.1.load 3
        mUnconfirmedInTransfers := ∅ } := by
  have hsome : keys ≠ none := by
    rintro rfl
    cases hkeys
  obtain ⟨account, -, hyields, hload⟩ | ⟨hnot, -⟩ :=
    loadKeys_cases f true password ⟨keys, none, []⟩
  · rw [hkeys] at hyields
    cases hyields
    have hversion : ¬ w.save.1.version < 5 := by
      show ¬ 8 < 5
      decide
    unfold loadWallet Wallet2.store
    simp only
    rw [if_neg hsome, hload]
    simp only
    rw [if_neg hversion, load_save_wallet]
    by_cases hempty : w.mBlockchain = []
    · simp only [if_pos hempty]
      exact if_neg (not_or.2 ⟨not_not.2 rfl, not_not.2 rfl⟩)
    · simp only [if_neg hempty]
      exact if_neg (not_or.2 ⟨not_not.2 rfl, not_not.2 rfl⟩)
  · refine absurd ⟨rfl, ?_⟩ hnot
    rw [hkeys]
    rfl

/-- A wallet survives when it has an id, no entry of its history has a fee, and
each has the unlock time of its transaction. -/
theorem survives_store_load_iff {we : WalletEnv} (f : KeysFormat AccountBase) (acc : AccountBase)
    (genesisId : Hash) (es : List WalletEvent) (keys : Option Blob) (password : Blob)
    (hkeys : f.yields keys password = some acc) :
    Survives f genesisId keys password (es.foldl (Wallet2.after we) (.fresh acc genesisId)) ↔
      (es.foldl (Wallet2.after we) (.fresh acc genesisId)).mBlockchain ≠ [] ∧
        ∀ wti ∈ (es.foldl (Wallet2.after we) (.fresh acc genesisId)).mTransferHistory,
          wti.fee = 0 ∧ wti.unlockTime = wti.tx.unlockTime := by
  have hfresh : (Wallet2.fresh acc genesisId).CountsIds acc := ⟨rfl, rfl⟩
  have hcount : (es.foldl (Wallet2.after we) (.fresh acc genesisId)).CountsIds acc :=
    hfresh.foldl_after es
  generalize es.foldl (Wallet2.after we) (.fresh acc genesisId) = w at hcount ⊢
  rw [← hcount.account] at hkeys
  have hloaded : loadWallet f genesisId (w.store keys).1 password = _ := loadWallet_store hkeys
  constructor
  · intro h
    obtain ⟨w', hw', hsame⟩ := h.restored
    rw [hloaded] at hw'
    cases hw'
    refine ⟨?_, ?_⟩
    · intro hempty
      have hids : (if w.mBlockchain = [] then [genesisId] else w.mBlockchain) = w.mBlockchain :=
        hsame.blockchain
      rw [if_pos hempty, hempty] at hids
      cases hids
    · intro wti hwti
      exact (load_save_eq_self_iff wti).1 ((map_eq_self_iff _ _).1 hsame.transferHistory wti hwti)
  · rintro ⟨hne, hentries⟩
    refine ⟨?_, _, hloaded, ?_⟩
    · have hhistory : (w.mTransferHistory.map fun x => x.save.2) = w.mTransferHistory :=
        (map_eq_self_iff _ _).2 fun x hx => (save_snd_eq_self_iff x).2 (hentries x hx).1
      show { w with mTransferHistory := w.mTransferHistory.map fun x => x.save.2 } = w
      rw [hhistory]
    · have hhistory : (w.mTransferHistory.map fun x => x.save.1.load 3) = w.mTransferHistory :=
        (map_eq_self_iff _ _).2 fun x hx => (load_save_eq_self_iff x).2 (hentries x hx)
      exact ⟨if_neg hne, by rw [if_neg hne]; exact hcount.height.symm, rfl, rfl, rfl, rfl, hhistory⟩

namespace Devnet

/-- Someone else's unit, of which one coin is for the purse and the rest a fee. -/
def coinToPurse : Transaction where
  version := 1
  unlockTime := 0
  vin := [.toKey unit [0] 9]
  vout := [{ toPurse 7 with amount := coin }]
  extra := txExtraTagPubkey :: bytesOfPod 32 7
  signatures := []

def payingEnv : WalletEnv :=
  { walletEnv answering with
    env := { (walletEnv answering).env with parseTx := fun _ => some coinToPurse } }

/-- The same, without a fee. -/
def feelessEnv : WalletEnv :=
  { payingEnv with
    env := { payingEnv.env with parseTx := fun _ => some { coinToPurse with vout := [toPurse 7] } } }

/-- A block with it. -/
def coinBlock : WalletEvent := .block ⟨mainBlock 1, [[]], 2, answering⟩

/-- A file that opens with the password 1. -/
def purseKeys : KeysFormat AccountBase where
  encrypt _ password _ := some password
  dump data := some data.accountData
  parse buf := some ⟨0, buf⟩
  decrypt data password := if data.accountData = password then some purse else none

end Devnet

/-- A unit received, of which nothing is a fee. -/
theorem survives_store_load_devnet :
    Survives Devnet.purseKeys 1 (some [1]) [1]
      ([Devnet.coinBlock].foldl (Wallet2.after Devnet.feelessEnv) (.fresh Devnet.purse 1)) := by
  have hhistory : ([Devnet.coinBlock].foldl (Wallet2.after Devnet.feelessEnv)
      (.fresh Devnet.purse 1)).mTransferHistory.map (fun wti =>
        (wti.amount, wti.fee, wti.unlockTime, wti.tx.unlockTime)) = [(Devnet.unit, 0, 0, 0)] ∧
      ([Devnet.coinBlock].foldl (Wallet2.after Devnet.feelessEnv)
        (.fresh Devnet.purse 1)).mBlockchain = [1, 2] := by decide +kernel
  refine (survives_store_load_iff Devnet.purseKeys Devnet.purse 1 [Devnet.coinBlock] (some [1]) [1]
    rfl).2 ⟨hhistory.2 ▸ List.cons_ne_nil _ _, fun wti hwti => ?_⟩
  have hentry := List.mem_singleton.1 (hhistory.1 ▸ List.mem_map_of_mem hwti)
  simp only [Prod.mk.injEq] at hentry
  exact ⟨hentry.2.1, hentry.2.2.1.trans hentry.2.2.2.symm⟩

/-- A coin received: storing empties the fee of its entry in the history. -/
theorem store_empties_fee :
    ¬ Survives Devnet.purseKeys 1 (some [1]) [1]
      ([Devnet.coinBlock].foldl (Wallet2.after Devnet.payingEnv) (.fresh Devnet.purse 1)) := by
  intro h
  have hfee : ([Devnet.coinBlock].foldl (Wallet2.after Devnet.payingEnv)
      (.fresh Devnet.purse 1)).mTransferHistory.map WalletTransferInfo.fee = [199 * coin] := by
    decide +kernel
  obtain ⟨wti, hwti, hwtiFee⟩ := List.mem_map.1 (hfee ▸ List.mem_singleton_self (199 * coin))
  have hsaved := (map_eq_self_iff _ _).1 (congrArg Wallet2.mTransferHistory h.untouched) wti hwti
  rw [(save_snd_eq_self_iff wti).1 hsaved] at hwtiFee
  exact absurd hwtiFee (by decide)

end DarknetSpace
