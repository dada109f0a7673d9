import DarknetSpace.Wallet.Wallet2
import DarknetSpace.Lib.FinMap

/-!
# What a wallet makes of a transaction

`process_new_transaction` takes the transaction off the pending ones, asks what
it has to ask, and only then writes. What it has to ask (`readTx`) depends on
the account, the transaction and the daemon's answer alone. Once that is
answered nothing can go wrong any more in a wallet whose key images point at
their outputs, and the rest is a function of the wallet, `scanTx`.

`processNewTransaction_eq` is the one lemma the rest of the wallet's development uses: a
transaction that is read (`TxReading`) makes the wallet `scanTx` of it, and one that is
not read leaves it as it is. The function is put together from its steps in the source's
order: outputs received, inputs spent, the payment noted, the history written.
-/

namespace DarknetSpace

open StateExn

/-! ## What it takes -/

/-- The helper finds the key `is_out_to_acc` has compared, and two one-time keys
have one key image exactly when they are equal. -/
structure ImageDerivation.Sound (img : ImageDerivation) (env : Env) (acc : AccountBase) :
    Prop where
  finds : ∀ key txPubKey i, env.isOutToAcc acc.keys key txPubKey i = true →
    ∃ image, img.generateKeyImageHelper acc txPubKey i = some (key, image)
  oneImage : ∀ {txPubKey txPubKey' i i' key key' image image'},
    img.generateKeyImageHelper acc txPubKey i = some (key, image) →
    img.generateKeyImageHelper acc txPubKey' i' = some (key', image') →
    (image = image' ↔ key = key')

/-- A key image points at an output that has it. -/
def Wallet2.Indexed (w : Wallet2) : Prop :=
  ∀ (k : KeyImage) (i : Nat), w.mKeyImages[k]? = some i →
    ∃ td : TransferDetails, w.mTransfers[i]? = some td ∧ td.mKeyImage = k

/-- Whether an input is a `txin_to_key`. -/
def Txin.isToKey : Txin → Bool
  | .toKey _ _ _ => true
  | _ => false

/-- Inputs of one sort, as `check_inputs_types_supported` and
`prevalidate_miner_transaction` see to. -/
def UniformInputs (tx : Transaction) : Prop :=
  (∀ vin ∈ tx.vin, vin.isToKey = true) ∨ (∀ vin ∈ tx.vin, vin.isToKey = false)

/-! ## Reading without writing -/

/-- What is known of a transaction before anything is written. -/
structure TxReading extends AccOuts where
  oIndexes : List UInt64
  deriving DecidableEq

/-- What a wallet reads of a transaction before it writes anything. -/
def readTx (we : WalletEnv) (acc : AccountBase) (tx : Transaction) :
    Except WalletError TxReading :=
  match lookupTx we.env acc.keys tx with
  | .error ex => .error ex
  | .ok found =>
    if found.outs ≠ [] ∧ found.got ≠ 0 then
      match askOIndexes we tx with
      | .error ex => .error ex
      | .ok oIndexes => .ok ⟨found, oIndexes⟩
    else .ok ⟨{ found with outs := [] }, []⟩

/-! ## Writing -/

/-- The transaction is pending no more. -/
def Wallet2.settle (env : Env) (tx : Transaction) (w : Wallet2) : Wallet2 :=
  { w with mUnconfirmedTxs := w.mUnconfirmedTxs.erase (getTransactionHash env tx) }

/-- Who a pending transaction went to. -/
def Wallet2.recipientOf (env : Env) (tx : Transaction) (w : Wallet2) : Blob × Blob :=
  match w.mUnconfirmedTxs[getTransactionHash env tx]? with
  | none => ([], [])
  | some utd => (utd.mRecipient, utd.mRecipientAlias)

/-- The transfer an output of the account becomes. -/
def newTransfer (we : WalletEnv) (acc : AccountBase) (tx : Transaction) (height : Nat)
    (r : TxReading) (o : Nat) : TransferDetails where
  mBlockHeight := height
  mTx := tx
  mInternalOutputIndex := o
  mGlobalOutputIndex := r.oIndexes.getD o 0
  mSpent := false
  mKeyImage := ((we.img.generateKeyImageHelper acc r.txPubKey o).map Prod.snd).getD 0

/-- The outputs a transaction brings. -/
def newTransfers (we : WalletEnv) (acc : AccountBase) (tx : Transaction) (height : Nat)
    (r : TxReading) : List TransferDetails :=
  r.outs.map (newTransfer we acc tx height r)

/-- A transfer at the end of the list, with its key image in the table. -/
def Wallet2.addTransfer (w : Wallet2) (td : TransferDetails) : Wallet2 :=
  { w with
    mTransfers := w.mTransfers ++ [td]
    mKeyImages := w.mKeyImages.insert td.mKeyImage w.mTransfers.length }

/-- The transfer, spent. -/
def TransferDetails.spend (td : TransferDetails) : TransferDetails := { td with mSpent := true }

/-- The output behind a key image is spent. -/
def Wallet2.markSpent (w : Wallet2) (k : KeyImage) : Wallet2 :=
  match w.mKeyImages[k]? with
  | none => w
  | some i => { w with mTransfers := w.mTransfers.modify i TransferDetails.spend }

/-- The key images of the inputs. -/
def inputImages (vin : List Txin) : List KeyImage :=
  vin.filterMap fun
    | .toKey _ _ kImage => some kImage
    | _ => none

/-- What inputs with a known key image come to. -/
def knownSpent (m : Map KeyImage Nat) : List Txin → UInt64
  | [] => 0
  | .toKey amount _ kImage :: rest =>
    if m.contains kImage then amount + knownSpent m rest else knownSpent m rest
  | _ :: rest => knownSpent m rest

/-- The positions of the inputs with a key image of the wallet. -/
def knownIndices (m : Map KeyImage Nat) : (i : Nat) → List Txin → List Nat
  | _, [] => []
  | i, .toKey _ _ kImage :: rest =>
    if m.contains kImage then i :: knownIndices m (i + 1) rest else knownIndices m (i + 1) rest
  | i, _ :: rest => knownIndices m i rest

/-- The payment a transaction is noted as, if it has a payment id and brings more than it takes. -/
def notedPayments (env : Env) (tx : Transaction) (height : Nat) (got spent : UInt64) :
    Multiset (Hash × PaymentDetails) :=
  match getPaymentIdFromTxExtra env tx with
  | none => 0
  | some paymentId =>
    let received := if spent < got then got - spent else 0
    if got ≠ 0 ∧ 0 < received ∧ nullHash ≠ paymentId then
      {(paymentId, ⟨getTransactionHash env tx, received, height, tx.unlockTime⟩)}
    else 0

/-- A filled entry of the history. -/
def historyEntry (env : Env) (b : Block) (tx : Transaction) (amount : UInt64)
    (mtd : MoneyTransfer2Details) (isIncome : Bool) (recipient : Blob × Blob) :
    WalletTransferInfo :=
  { (prepareWti env (getBlockHeight b) b.timestamp tx amount mtd).1 with
    isIncome, recipient := recipient.1, recipientAlias := recipient.2 }

/-- The line of the history a transaction makes. -/
def notedTransfers (env : Env) (b : Block) (tx : Transaction) (got spent : UInt64)
    (mtd : MoneyTransfer2Details) (recipient : Blob × Blob) : List WalletTransferInfo :=
  if spent ≠ 0 then
    if spent > got then [historyEntry env b tx (spent - got) mtd false recipient]
    else [historyEntry env b tx spent mtd false recipient, historyEntry env b tx got mtd true ([], [])]
  else if got ≠ 0 then [historyEntry env b tx got mtd true ([], [])]
  else []

/-- All a transaction does to a wallet. -/
def scanTx (we : WalletEnv) (tx : Transaction) (height : Nat) (b : Block) (r : TxReading)
    (w : Wallet2) : Wallet2 :=
  let w₁ := (newTransfers we w.mAccount tx height r).foldl Wallet2.addTransfer (w.settle we.env tx)
  let w₂ := (inputImages tx.vin).foldl Wallet2.markSpent w₁
  let spent := knownSpent w₁.mKeyImages tx.vin
  { w₂ with
    mPayments := notedPayments we.env tx height r.got spent + w₂.mPayments
    mTransferHistory := w₂.mTransferHistory ++ notedTransfers we.env b tx r.got spent
      ⟨r.outs, knownIndices w₁.mKeyImages 0 tx.vin⟩ (w.recipientOf we.env tx) }

/-! ## The code does just that -/

section

variable {we : WalletEnv} {tx : Transaction} {w : Wallet2}

/-- What `process_unconfirmed` returns and leaves. -/
theorem processUnconfirmed_eq (env : Env) (tx : Transaction) (w : Wallet2) :
    processUnconfirmed env tx w = .ok (w.recipientOf env tx) (w.settle env tx) := by
  unfold processUnconfirmed Wallet2.recipientOf Wallet2.settle
  rw [bind_of_ok (get_apply w)]
  cases h : w.mUnconfirmedTxs[getTransactionHash env tx]? with
  | none =>
    rw [FinMap.erase_of_none h]
    rfl
  | some utd => rfl

/-- An output that was found is there, with a key of the account. -/
theorem lookupAccOuts_mem {env : Env} {acc : AccountKeys} {txPubKey : PublicKey} {i : Nat}
    {vout : List TxOut} {outs : List Nat} {got : UInt64}
    (h : lookupAccOuts env acc txPubKey i vout = some (outs, got)) {o : Nat} (ho : o ∈ outs) :
    i ≤ o ∧ ∃ amount key attr, vout[o - i]? = some ⟨amount, .toKey key attr⟩ ∧
      env.isOutToAcc acc key txPubKey o = true := by
  induction vout generalizing i outs got with
  | nil =>
    cases h
    cases ho
  | cons out rest ih =>
    obtain ⟨amount, target⟩ := out
    cases target with
    | toScript _ _ | toScripthash _ => cases h
    | toKey key attr =>
      obtain ⟨⟨outs', got'⟩, hrest, hout⟩ := Option.map_eq_some_iff.1 h
      simp only at hout
      have hstep : o ∈ outs' → i ≤ o ∧ ∃ amount' key' attr',
          (⟨amount, .toKey key attr⟩ :: rest : List TxOut)[o - i]? =
            some ⟨amount', .toKey key' attr'⟩ ∧ env.isOutToAcc acc key' txPubKey o = true := by
        intro ho'
        obtain ⟨hle, amount', key', attr', hget, hmine⟩ := ih hrest ho'
        refine ⟨by omega, amount', key', attr', ?_, hmine⟩
        rw [show o - i = o - (i + 1) + 1 by omega, List.getElem?_cons_succ]
        exact hget
      by_cases hmine : env.isOutToAcc acc key txPubKey i = true
      · rw [if_pos hmine] at hout
        cases hout
        rcases List.mem_cons.1 ho with rfl | ho'
        · refine ⟨Nat.le_refl _, amount, key, attr, ?_, hmine⟩
          rw [Nat.sub_self]
          rfl
        · exact hstep ho'
      · rw [if_neg hmine] at hout
        cases hout
        exact hstep ho

/-- Receiving one output adds its transfer, or throws when its key image is known. -/
theorem receiveOut_eq (hs : we.img.Sound we.env w.mAccount) {r : TxReading} {height o : Nat}
    {amount : UInt64} {key : PublicKey} {attr : UInt8}
    (hout : tx.vout[o]? = some ⟨amount, .toKey key attr⟩)
    (hmine : we.env.isOutToAcc w.mAccount.keys key r.txPubKey o = true) :
    receiveOut we tx r.txPubKey height r.oIndexes o w =
      .ok () (w.addTransfer (newTransfer we w.mAccount tx height r o)) := by
  obtain ⟨image, himage⟩ := hs.finds _ _ _ hmine
  unfold receiveOut
  rw [bind_of_ok (get_apply w), hout]
  simp only [himage]
  rw [bind_of_ok (set_apply ..), if_neg (not_not.2 rfl)]
  unfold Wallet2.addTransfer newTransfer
  rw [himage]
  simp only [modify_apply, List.length_append, List.length_singleton,
    Nat.add_sub_cancel, Option.map_some, Option.getD_some]

/-- Receiving the outputs of a transaction, by induction on them. -/
theorem receiveOuts_eq (hs : we.img.Sound we.env w.mAccount) {r : TxReading} {height : Nat}
    {outs : List Nat}
    (houts : ∀ o ∈ outs, ∃ amount key attr, tx.vout[o]? = some ⟨amount, .toKey key attr⟩ ∧
      we.env.isOutToAcc w.mAccount.keys key r.txPubKey o = true) :
    receiveOuts we tx r.txPubKey height r.oIndexes outs w =
      .ok () ((outs.map (newTransfer we w.mAccount tx height r)).foldl Wallet2.addTransfer w) := by
  induction outs generalizing w with
  | nil => rfl
  | cons o outs ih =>
    obtain ⟨amount, key, attr, hout, hmine⟩ := houts o List.mem_cons_self
    unfold receiveOuts
    rw [bind_of_ok (receiveOut_eq hs hout hmine)]
    exact ih (w := w.addTransfer (newTransfer we w.mAccount tx height r o)) hs
      fun o' ho' => houts o' (List.mem_cons_of_mem _ ho')

end

/-! ### Inputs -/

theorem getElem?_modify_of_some {α : Type} {l : List α} {i j : Nat} {x : α} (f : α → α)
    (h : l[j]? = some x) : (l.modify i f)[j]? = some (if i = j then f x else x) := by
  rw [List.getElem?_modify, h]
  rfl

@[simp] theorem markSpent_mKeyImages (w : Wallet2) (k : KeyImage) :
    (w.markSpent k).mKeyImages = w.mKeyImages := by
  unfold Wallet2.markSpent
  split
  · rfl
  · rfl

theorem foldl_markSpent_mKeyImages (ks : List KeyImage) (w : Wallet2) :
    (ks.foldl Wallet2.markSpent w).mKeyImages = w.mKeyImages := by
  induction ks generalizing w with
  | nil => rfl
  | cons k ks ih => rw [List.foldl_cons, ih, markSpent_mKeyImages]

/-- Marking a transfer leaves the table right. -/
theorem markSpent_indexed {w : Wallet2} (h : w.Indexed) (k : KeyImage) : (w.markSpent k).Indexed := by
  intro k' i hi
  rw [markSpent_mKeyImages] at hi
  obtain ⟨td, htd, himage⟩ := h k' i hi
  unfold Wallet2.markSpent
  split
  · exact ⟨td, htd, himage⟩
  · next j _ =>
    by_cases hij : j = i
    · refine ⟨td.spend, ?_, himage⟩
      rw [getElem?_modify_of_some _ htd, if_pos hij]
    · refine ⟨td, ?_, himage⟩
      rw [getElem?_modify_of_some _ htd, if_neg hij]

/-- An input with a known key image marks its transfer. -/
theorem spendInput_eq {w : Wallet2} (h : w.Indexed) (k : KeyImage) :
    spendInput k w = .ok (w.mKeyImages.contains k) (w.markSpent k) := by
  unfold spendInput Wallet2.markSpent
  rw [bind_of_ok (get_apply w)]
  cases hk : w.mKeyImages[k]? with
  | none =>
    have hno : w.mKeyImages.contains k = false := by
      rw [Std.ExtTreeMap.contains_eq_isSome_getElem?, hk]
      rfl
    rw [hno]
    rfl
  | some i =>
    have hyes : w.mKeyImages.contains k = true := by
      rw [Std.ExtTreeMap.contains_eq_isSome_getElem?, hk]
      rfl
    obtain ⟨td, htd, -⟩ := h k i hk
    rw [hyes]
    simp only [htd]
    rw [List.modify_eq_set_getElem?, htd]
    rfl

theorem knownSpent_toKey (m : Map KeyImage Nat) (amount : UInt64) (offsets : List UInt64)
    (kImage : KeyImage) (rest : List Txin) :
    knownSpent m (.toKey amount offsets kImage :: rest) =
      if m.contains kImage then amount + knownSpent m rest else knownSpent m rest := rfl

theorem knownIndices_toKey (m : Map KeyImage Nat) (i : Nat) (amount : UInt64)
    (offsets : List UInt64) (kImage : KeyImage) (rest : List Txin) :
    knownIndices m i (.toKey amount offsets kImage :: rest) =
      if m.contains kImage then i :: knownIndices m (i + 1) rest
      else knownIndices m (i + 1) rest := rfl

/-- The inputs of a transaction, by induction on them. -/
theorem spendInputs_eq {vin : List Txin} {w : Wallet2} (h : w.Indexed) (i : Nat) :
    spendInputs i vin w = .ok (knownSpent w.mKeyImages vin, knownIndices w.mKeyImages i vin)
      ((inputImages vin).foldl Wallet2.markSpent w) := by
  induction vin generalizing w i with
  | nil => rfl
  | cons x rest ih =>
    cases x with
    | gen _ | toScript _ _ _ | toScripthash _ _ _ _ _ => exact ih h i
    | toKey amount offsets kImage =>
      have hrest := ih (markSpent_indexed h kImage) (i + 1)
      rw [markSpent_mKeyImages] at hrest
      unfold spendInputs
      rw [bind_of_ok (spendInput_eq h kImage), bind_of_ok hrest]
      rw [knownSpent_toKey, knownIndices_toKey]
      cases w.mKeyImages.contains kImage with
      | false => rfl
      | true => rfl

/-! ### History -/

/-- Inputs of one sort: the indexes counted are those of `txin_to_key` inputs. -/
theorem knownIndices_toKeys {m : Map KeyImage Nat} {tx : Transaction} (hu : UniformInputs tx)
    {si : Nat} (hsi : si ∈ knownIndices m 0 tx.vin) :
    ∃ amount offsets kImage, tx.vin[si]? = some (.toKey amount offsets kImage) := by
  rcases hu with hkeys | hnone
  · -- every input counts, so the index is the position
    have hlt : ∀ (vin : List Txin) (i : Nat), ∀ si ∈ knownIndices m i vin,
        i ≤ si ∧ si < i + vin.length := by
      intro vin
      induction vin with
      | nil => exact fun i si h => nomatch h
      | cons x rest ih =>
        intro i si hsi
        rw [List.length_cons]
        cases x with
        | gen _ | toScript _ _ _ | toScripthash _ _ _ _ _ =>
          have := ih i si hsi
          omega
        | toKey amount offsets kImage =>
          rw [knownIndices_toKey] at hsi
          have htail : si ∈ knownIndices m (i + 1) rest → i ≤ si ∧ si < i + (rest.length + 1) := by
            intro h
            have := ih (i + 1) si h
            omega
          split at hsi
          · rcases List.mem_cons.1 hsi with rfl | h
            · omega
            · exact htail h
          · exact htail hsi
    obtain ⟨-, hbound⟩ := hlt tx.vin 0 si hsi
    rw [Nat.zero_add] at hbound
    have hget := List.getElem?_eq_getElem hbound
    have hkey := hkeys _ (List.getElem_mem hbound)
    generalize tx.vin[si] = x at hget hkey
    cases x with
    | gen _ | toScript _ _ _ | toScripthash _ _ _ _ _ => cases hkey
    | toKey amount offsets kImage => exact ⟨amount, offsets, kImage, hget⟩
  -- no input counts, so no index is known
  · have hnil : ∀ (vin : List Txin), (∀ x ∈ vin, x.isToKey = false) →
        ∀ i, knownIndices m i vin = [] := by
      intro vin hvin
      induction vin with
      | nil => exact fun i => rfl
      | cons x rest ih =>
        intro i
        have hx := hvin x List.mem_cons_self
        cases x with
        | gen _ | toScript _ _ _ | toScripthash _ _ _ _ _ =>
          exact ih (fun y hy => hvin y (List.mem_cons_of_mem _ hy)) i
        | toKey _ _ _ => cases hx
    rw [hnil tx.vin hnone 0] at hsi
    cases hsi

/-- The spent inputs that are listed have amounts to be filled in. -/
theorem fillSpn_complete {tx : Transaction} {indices : List Nat}
    (h : ∀ si ∈ indices, ∃ amount offsets kImage,
      tx.vin[si]? = some (.toKey amount offsets kImage)) : (fillSpn tx indices).2 = .complete := by
  induction indices with
  | nil => rfl
  | cons si rest ih =>
    obtain ⟨amount, offsets, kImage, hget⟩ := h si List.mem_cons_self
    unfold fillSpn
    rw [hget]
    exact ih fun si' hsi' => h si' (List.mem_cons_of_mem _ hsi')

section

variable {env : Env} {tx : Transaction} {mtd : MoneyTransfer2Details}

/-- With those the line of the history is complete. -/
theorem prepareWti_filled (env : Env) (h : (fillSpn tx mtd.spentIndices).2 = .complete)
    (height timestamp amount : UInt64) :
    (prepareWti env height timestamp tx amount mtd).2 = true := by
  unfold prepareWti fillTransferDetails
  generalize hf : fillSpn tx mtd.spentIndices = f at h
  obtain ⟨spn, filled⟩ := f
  simp only at h
  subst h
  rfl

/-- A complete line goes to the end of the history. -/
theorem noteTransfer_eq {wti : WalletTransferInfo × Bool} (h : wti.2 = true) (isIncome : Bool)
    (recipient recipientAlias : Blob) (w : Wallet2) :
    noteTransfer wti isIncome recipient recipientAlias w =
      .ok () { w with mTransferHistory := w.mTransferHistory ++
        [{ wti.1 with isIncome, recipient, recipientAlias }] } := by
  unfold noteTransfer
  rw [h, if_neg (not_not.2 rfl)]
  rfl

/-- A payment goes to the payments. -/
theorem notePayment_eq (env : Env) (tx : Transaction) (height : Nat) (got spent : UInt64)
    (w : Wallet2) : notePayment env tx height got spent w =
      .ok () { w with mPayments := notedPayments env tx height got spent + w.mPayments } := by
  unfold notePayment notedPayments
  cases getPaymentIdFromTxExtra env tx with
  | none =>
    simp only [Multiset.zero_add]
    rfl
  | some paymentId =>
    simp only
    generalize (if spent < got then got - spent else 0) = received
    by_cases hpaid : got ≠ 0 ∧ 0 < received ∧ nullHash ≠ paymentId
    · rw [if_pos hpaid, if_pos hpaid, Multiset.singleton_add]
      rfl
    · rw [if_neg hpaid, if_neg hpaid]
      simp only [Multiset.zero_add]
      rfl

/-- The line of a transaction goes to the history. -/
theorem noteTransfers_eq (h : (fillSpn tx mtd.spentIndices).2 = .complete) (b : Block)
    (got spent : UInt64) (recipient : Blob × Blob) (w : Wallet2) :
    noteTransfers env b tx got spent mtd recipient.1 recipient.2 w =
      .ok () { w with mTransferHistory := w.mTransferHistory ++
        notedTransfers env b tx got spent mtd recipient } := by
  have hfilled := prepareWti_filled env h (getBlockHeight b) b.timestamp
  unfold noteTransfers notedTransfers
  by_cases hspent : spent ≠ 0
  · rw [if_pos hspent, if_pos hspent]
    by_cases hmore : spent > got
    · rw [if_pos hmore, if_pos hmore]
      exact noteTransfer_eq (hfilled _) false recipient.1 recipient.2 w
    · rw [if_neg hmore, if_neg hmore]
      unfold handleMoneySpent2 handleMoneyReceived2
      rw [bind_of_ok (noteTransfer_eq (hfilled _) false recipient.1 recipient.2 w),
        noteTransfer_eq (hfilled _) true [] []]
      simp only [List.append_assoc]
      rfl
  · rw [if_neg hspent, if_neg hspent]
    by_cases hgot : got ≠ 0
    · rw [if_pos hgot, if_pos hgot]
      exact noteTransfer_eq (hfilled _) true [] [] w
    · rw [if_neg hgot, if_neg hgot, List.append_nil]
      rfl

end

/-! ### The whole transaction -/

section

variable {we : WalletEnv} {tx : Transaction} {w : Wallet2} {height : Nat} {b : Block}

/-- A new transfer keeps the table right. -/
theorem addTransfer_indexed {w : Wallet2} (h : w.Indexed) (td : TransferDetails) :
    (w.addTransfer td).Indexed := by
  intro k i hi
  unfold Wallet2.addTransfer at hi ⊢
  simp only at hi ⊢
  by_cases hk : k = td.mKeyImage
  · subst hk
    rw [Std.ExtTreeMap.getElem?_insert_self] at hi
    cases hi
    exact ⟨td, List.getElem?_concat_length, rfl⟩
  · rw [FinMap.getElem?_insert_ne hk] at hi
    obtain ⟨td', htd', himage⟩ := h k i hi
    have hlt : i < w.mTransfers.length := (List.getElem?_eq_some_iff.1 htd').1
    exact ⟨td', by rw [List.getElem?_append_left hlt, htd'], himage⟩

theorem foldl_addTransfer_indexed {w : Wallet2} (h : w.Indexed) (tds : List TransferDetails) :
    (tds.foldl Wallet2.addTransfer w).Indexed := by
  induction tds generalizing w with
  | nil => exact h
  | cons td tds ih => exact ih (addTransfer_indexed h td)

theorem foldl_markSpent_indexed {w : Wallet2} (h : w.Indexed) (ks : List KeyImage) :
    (ks.foldl Wallet2.markSpent w).Indexed := by
  induction ks generalizing w with
  | nil => exact h
  | cons k ks ih => exact ih (markSpent_indexed h k)

/-- What cannot be read leaves the wallet as it was, except that the transaction
is pending no more. -/
theorem processNewTransaction_unread {ex : WalletError} (h : readTx we w.mAccount tx = .error ex) :
    processNewTransaction we tx height b w = .error ex (w.settle we.env tx) := by
  unfold processNewTransaction
  rw [bind_of_ok (processUnconfirmed_eq we.env tx w)]
  unfold readTx at h
  cases hlook : lookupTx we.env w.mAccount.keys tx with
  | error ex' =>
    rw [hlook] at h
    cases h
    exact bind_of_error (reads_of_error hlook)
  | ok found =>
    rw [hlook] at h
    simp only at h
    rw [bind_of_ok (reads_of_ok (s := w.settle we.env tx) hlook)]
    by_cases hgot : found.outs ≠ [] ∧ found.got ≠ 0
    · rw [if_pos hgot] at h
      cases hask : askOIndexes we tx with
      | error ex' =>
        rw [hask] at h
        cases h
        unfold receive
        rw [if_pos hgot]
        exact bind_of_error (bind_of_error (reads_of_error hask))
      | ok oIndexes =>
        rw [hask] at h
        cases h
    · rw [if_neg hgot] at h
      cases h

/-- What was read of a transaction comes from `lookup_acc_outs`. -/
theorem readTx_found {acc : AccountBase} {r : TxReading} (h : readTx we acc tx = .ok r) :
    ∃ found, lookupTx we.env acc.keys tx = .ok found ∧ found.got = r.got ∧
      found.txPubKey = r.txPubKey ∧
      ((found.outs ≠ [] ∧ found.got ≠ 0 ∧ askOIndexes we tx = .ok r.oIndexes ∧
          r.outs = found.outs) ∨
        (¬ (found.outs ≠ [] ∧ found.got ≠ 0) ∧ r.outs = [])) := by
  unfold readTx at h
  cases hlook : lookupTx we.env acc.keys tx with
  | error ex =>
    rw [hlook] at h
    cases h
  | ok found =>
    rw [hlook] at h
    simp only at h
    refine ⟨found, rfl, ?_⟩
    by_cases hgot : found.outs ≠ [] ∧ found.got ≠ 0
    · rw [if_pos hgot] at h
      cases hask : askOIndexes we tx with
      | error ex =>
        rw [hask] at h
        cases h
      | ok oIndexes =>
        rw [hask] at h
        cases h
        exact ⟨rfl, rfl, .inl ⟨hgot.1, hgot.2, rfl, rfl⟩⟩
    · rw [if_neg hgot] at h
      cases h
      exact ⟨rfl, rfl, .inr ⟨hgot, rfl⟩⟩

/-- The outputs read off a transaction are the account's. -/
theorem readTx_out {acc : AccountBase} {r : TxReading} (h : readTx we acc tx = .ok r) {o : Nat}
    (ho : o ∈ r.outs) : ∃ amount key attr, tx.vout[o]? = some ⟨amount, .toKey key attr⟩ ∧
      we.env.isOutToAcc acc.keys key r.txPubKey o = true := by
  obtain ⟨found, hlook, -, hkey, ⟨-, -, -, houts⟩ | ⟨-, houts⟩⟩ := readTx_found h
  · rw [houts] at ho
    rw [← hkey]
    unfold lookupTx at hlook
    split at hlook
    · cases hlook
    · cases hlook
    · split at hlook
      · cases hlook
      · next hacc =>
        cases hlook
        exact (lookupAccOuts_mem hacc ho).2
  · rw [houts] at ho
    cases ho

/-- The receiving half of `process_new_transaction`. -/
theorem receive_eq (hs : we.img.Sound we.env w.mAccount) {r : TxReading} {found : AccOuts}
    (hlook : lookupTx we.env w.mAccount.keys tx = .ok found) (h : readTx we w.mAccount tx = .ok r) :
    receive we tx height found w = .ok r.outs
      ((newTransfers we w.mAccount tx height r).foldl Wallet2.addTransfer w) := by
  have houts := fun o (ho : o ∈ r.outs) => readTx_out h ho
  obtain ⟨found', hlook', -, hkey, hcase⟩ := readTx_found h
  rw [hlook] at hlook'
  cases hlook'
  unfold receive newTransfers
  rcases hcase with ⟨hne, hgot, hask, hr⟩ | ⟨hnone, hr⟩
  · have hreads : reads (fun _ => askOIndexes we tx) w = .ok r.oIndexes w := reads_of_ok hask
    rw [if_pos ⟨hne, hgot⟩, bind_of_ok hreads, ← hr, hkey, bind_of_ok (receiveOuts_eq hs houts)]
    rfl
  · rw [if_neg hnone, hr]
    rfl

/-- A transaction that can be read is scanned. -/
theorem processNewTransaction_eq (height : Nat) (b : Block)
    (hs : we.img.Sound we.env w.mAccount) (hi : w.Indexed) (hu : UniformInputs tx) {r : TxReading} (h : readTx we w.mAccount tx = .ok r) :
    processNewTransaction we tx height b w = .ok () (scanTx we tx height b r w) := by
  have hsettled : (w.settle we.env tx).Indexed := hi
  obtain ⟨found, hlook, hgot, -, -⟩ := readTx_found h
  unfold processNewTransaction
  rw [bind_of_ok (processUnconfirmed_eq we.env tx w),
    bind_of_ok (reads_of_ok (s := w.settle we.env tx) hlook),
    bind_of_ok (receive_eq (w := w.settle we.env tx) hs hlook h),
    bind_of_ok (spendInputs_eq (foldl_addTransfer_indexed hsettled _) 0)]
  simp only
  rw [bind_of_ok (notePayment_eq ..), hgot,
    noteTransfers_eq (fillSpn_complete fun si hsi => knownIndices_toKeys hu hsi)]
  rfl

end

/-! ## A wallet to try things on

One account, `purse`. The key of an output is read off the transaction key and
the index of the output, even for the purse and odd for all others, and is its
own key image. -/

namespace Devnet

/-- The keys of the sample wallet. -/
def purse : AccountBase := ⟨⟨⟨2, 3⟩, 4⟩, 5, 0⟩

/-- The one-time key of an output in the sample environment. -/
def oneTimeKey (addr : AccountPublicAddress) (txPubKey : PublicKey) (i : Nat) : PublicKey :=
  BitVec.ofNat 256 (2 * (txPubKey.toNat * 2 ^ 16 + i) +
    if addr = purse.keys.mAccountAddress then 0 else 1)

/-- A transaction of that version under the transaction key `key`; it spends
what came under the key `spent`, if there was one. -/
def transferTx (version key spent : UInt8) (outs : List TxOut) : Transaction where
  version := version.toUInt64
  unlockTime := 0
  vin := if spent = 0 then []
    else [.toKey unit [0] (oneTimeKey purse.keys.mAccountAddress (BitVec.ofNat 256 spent.toNat) 0)]
  vout := outs
  extra := txExtraTagPubkey :: bytesOfPod 32 key.toNat
  signatures := []

/-- One output to the purse. -/
def toPurse (key : UInt8) : TxOut :=
  ⟨unit, .toKey (oneTimeKey purse.keys.mAccountAddress (BitVec.ofNat 256 key.toNat) 0) 0⟩

/-- The sample environment, with the daemon's answers left open. -/
def walletEnv (oIndexes : Hash → RpcAnswer (List UInt64)) : WalletEnv where
  env := { env with
    isOutToAcc acc key txPubKey i := key == oneTimeKey acc.mAccountAddress txPubKey i
    parseTx
      | [version, key, spent, 1] => some (transferTx version key spent [toPurse key])
      | [version, key, spent, 0] => some (transferTx version key spent [⟨unit, .toKey 7 0⟩])
      | _ => none }
  img := ⟨fun acc txPubKey i =>
    some (oneTimeKey acc.keys.mAccountAddress txPubKey i,
      oneTimeKey acc.keys.mAccountAddress txPubKey i)⟩
  oIndexes

/-- Its key images are derived soundly. -/
theorem walletEnv_sound (oIndexes : Hash → RpcAnswer (List UInt64)) (acc : AccountBase) :
    (walletEnv oIndexes).img.Sound (walletEnv oIndexes).env acc := by
  refine ⟨?_, ?_⟩
  · intro key txPubKey i h
    rw [eq_of_beq h]
    exact ⟨_, rfl⟩
  · intro _ _ _ _ _ _ _ _ h h'
    cases h
    cases h'
    exact Iff.rfl

/-- A daemon that knows the only output of every transaction. -/
def answering (_ : Hash) : RpcAnswer (List UInt64) := .response .ok [0]

/-- The sample wallet as made. -/
def newPurse : Wallet2 := .fresh purse 1

theorem newPurse_indexed : newPurse.Indexed := by
  intro k i hk
  have hnone : newPurse.mKeyImages[k]? = none := Std.ExtTreeMap.getElem?_empty
  rw [hnone] at hk
  cases hk

end Devnet

end DarknetSpace
