import DarknetSpace.Wallet.PaymentId

/-!
# Giving a payment up (`wallet2::delete_unconfirmed_tx`)

What was sent is pending until a block has it. Before that it can be given up,
by its id in hexadecimal or all at once: the outputs behind the key images of its
inputs then count as unspent. Whether something else has spent them meanwhile
nobody asks.

`giveUp` is what is done for one entry: its inputs are recharged, one by one, and the
entry goes. In a wallet whose index is exact (`Wallet2.Exact`) no input can fail to be
found, and the result is a plain function of the wallet (`recharge`, `without`).
`GivesUp` puts that together for a call: which entries are named by the text, what goes
with them, and that nothing else changes (`deleteUnconfirmedTx_givesUp`).
-/

namespace DarknetSpace

open StateExn

/-- `tolower` in the C locale; bytes from 128 on stay. -/
def toLower (c : UInt8) : UInt8 := if 65 ≤ c ∧ c ≤ 90 then c + 32 else c

def rechargeInput (kImage : KeyImage) : WalletM Unit := do
  let w ← get
  match w.mKeyImages[kImage]? with
  | none => pure ()
  | some i =>
    match w.mTransfers[i]? with
    | none => throw (.exn .undefinedBehaviour)
    | some td => set { w with mTransfers := w.mTransfers.set i { td with mSpent := false } }

def rechargeInputs : List Txin → WalletM Unit
  | [] => pure ()
  | .toKey _ _ kImage :: rest => do
    rechargeInput kImage
    rechargeInputs rest
  | _ :: rest => rechargeInputs rest

/-- `recharge_transfers`; the money it counts is for the log. -/
def rechargeTransfers (tx : Transaction) : WalletM Unit := rechargeInputs tx.vin

/-- `recharge_transfers`, and the entry is gone. -/
def giveUp (id : Hash) (utd : UnconfirmedTransferDetails) : WalletM Unit := do
  rechargeTransfers utd.mTx
  modify fun w => { w with mUnconfirmedTxs := w.mUnconfirmedTxs.erase id }

/-- The loop over all that is pending. -/
def giveUpAll : List (Hash × UnconfirmedTransferDetails) → WalletM Unit
  | [] => pure ()
  | (id, utd) :: rest => do
    giveUp id utd
    giveUpAll rest

/-- `"all"`. -/
def allText : Blob := [97, 108, 108]

/-- `delete_unconfirmed_tx`. -/
def deleteUnconfirmedTx (txid : Blob) : WalletM Bool := do
  let w ← get
  let txHash := txid.map toLower
  if txHash = allText then
    -- an unordered map: in which order the entries go makes no difference
    giveUpAll w.mUnconfirmedTxs.toList
    return true
  else
    match parsePaymentIdFromHexStr txHash with
    | none => return false
    | some id =>
      match w.mUnconfirmedTxs[id]? with
      | none => return false
      | some utd =>
        giveUp id utd
        return true

/-- The text stands for a transaction, or for all of them. -/
def Names (txid : Blob) (id : Hash) : Prop :=
  txid.map toLower = allText ∨ parsePaymentIdFromHexStr (txid.map toLower) = some id

instance (txid : Blob) (id : Hash) : Decidable (Names txid id) :=
  inferInstanceAs (Decidable (_ ∨ _))

/-- `unlocked_balance`. -/
def Wallet2.unlockedBalance (now : Nat) (w : Wallet2) : UInt64 :=
  sumAmounts ((w.mTransfers.filter fun td => ¬ td.mSpent ∧ w.isTransferUnlocked now td = true).map
    TransferDetails.amount)

/-! ## Outputs that count as unspent again -/

/-- An output whose key image is among those is unspent. -/
def TransferDetails.rechargeIf (ks : List KeyImage) (td : TransferDetails) : TransferDetails :=
  if td.mKeyImage ∈ ks then { td with mSpent := false } else td

@[simp] theorem rechargeIf_mKeyImage (ks : List KeyImage) (td : TransferDetails) :
    (td.rechargeIf ks).mKeyImage = td.mKeyImage := by
  unfold TransferDetails.rechargeIf
  split
  · rfl
  · rfl

theorem rechargeIf_append (ks ks' : List KeyImage) (td : TransferDetails) :
    (td.rechargeIf ks).rechargeIf ks' = td.rechargeIf (ks ++ ks') := by
  unfold TransferDetails.rechargeIf
  by_cases hk : td.mKeyImage ∈ ks
  · rw [if_pos hk, if_pos (List.mem_append_left _ hk)]
    split
    · rfl
    · rfl
  · rw [if_neg hk]
    by_cases hk' : td.mKeyImage ∈ ks'
    · rw [if_pos hk', if_pos (List.mem_append_right _ hk')]
    · rw [if_neg hk', if_neg (by rw [List.mem_append]; tauto)]

/-- The wallet in which the outputs behind these key images are unspent. -/
def Wallet2.recharge (ks : List KeyImage) (w : Wallet2) : Wallet2 :=
  { w with mTransfers := w.mTransfers.map (TransferDetails.rechargeIf ks) }

theorem recharge_nil (w : Wallet2) : w.recharge [] = w := by
  have hmap : w.mTransfers.map (TransferDetails.rechargeIf []) = w.mTransfers := by
    conv_rhs => rw [← List.map_id w.mTransfers]
    exact List.map_congr_left fun td _ => if_neg List.not_mem_nil
  unfold Wallet2.recharge
  rw [hmap]

theorem recharge_append (ks ks' : List KeyImage) (w : Wallet2) :
    (w.recharge ks).recharge ks' = w.recharge (ks ++ ks') := by
  have hmap : (w.mTransfers.map (TransferDetails.rechargeIf ks)).map
      (TransferDetails.rechargeIf ks') = w.mTransfers.map (TransferDetails.rechargeIf (ks ++ ks')) := by
    rw [List.map_map]
    exact List.map_congr_left fun td _ => rechargeIf_append ks ks' td
  unfold Wallet2.recharge
  rw [← hmap]

theorem recharge_images (ks : List KeyImage) (w : Wallet2) : (w.recharge ks).images = w.images := by
  unfold Wallet2.images Wallet2.recharge
  rw [List.map_map]
  exact List.map_congr_left fun td _ => rechargeIf_mKeyImage ks td

theorem Wallet2.Exact.recharge {w : Wallet2} (h : w.Exact) (ks : List KeyImage) :
    (w.recharge ks).Exact :=
  h.of_same rfl (recharge_images ks w)

section

variable {w : Wallet2}

theorem rechargeInput_eq (h : w.Exact) (kImage : KeyImage) :
    rechargeInput kImage w = .ok () (w.recharge [kImage]) := by
  unfold rechargeInput
  rw [bind_of_ok (get_apply w)]
  cases hk : w.mKeyImages[kImage]? with
  | none =>
    have hmap : w.mTransfers.map (TransferDetails.rechargeIf [kImage]) = w.mTransfers := by
      conv_rhs => rw [← List.map_id w.mTransfers]
      refine List.map_congr_left fun td htd => ?_
      rw [TransferDetails.rechargeIf, if_neg (by rw [List.mem_singleton]; exact h.not_mem hk htd)]
      rfl
    unfold Wallet2.recharge
    rw [hmap]
    rfl
  | some i =>
    obtain ⟨td, htd, -⟩ := (h kImage i).1 hk
    have hset : w.mTransfers.set i { td with mSpent := false } =
        w.mTransfers.map (TransferDetails.rechargeIf [kImage]) := by
      have hmodify := h.modify_eq hk fun td => { td with mSpent := false }
      rw [List.modify_eq_set_getElem?, htd] at hmodify
      refine hmodify.trans ?_
      refine List.map_congr_left fun td _ => ?_
      unfold TransferDetails.rechargeIf
      simp only [List.mem_singleton]
    simp only [htd]
    unfold Wallet2.recharge
    rw [← hset]
    rfl

theorem rechargeInputs_eq (h : w.Exact) (vin : List Txin) :
    rechargeInputs vin w = .ok () (w.recharge (inputImages vin)) := by
  induction vin generalizing w with
  | nil =>
    rw [show inputImages [] = [] from rfl, recharge_nil]
    rfl
  | cons x rest ih =>
    cases x with
    | gen _ | toScript _ _ _ | toScripthash _ _ _ _ _ => exact ih h
    | toKey amount offsets kImage =>
      unfold rechargeInputs
      rw [bind_of_ok (rechargeInput_eq h kImage), ih (h.recharge _), recharge_append]
      rfl

/-- The wallet that has given a transaction up. -/
def Wallet2.without (id : Hash) (tx : Transaction) (w : Wallet2) : Wallet2 :=
  { w.recharge (inputImages tx.vin) with mUnconfirmedTxs := w.mUnconfirmedTxs.erase id }

theorem Wallet2.Exact.without (h : w.Exact) (id : Hash) (tx : Transaction) :
    (w.without id tx).Exact :=
  h.of_same rfl (recharge_images _ w)

theorem giveUp_eq (h : w.Exact) (id : Hash) (utd : UnconfirmedTransferDetails) :
    giveUp id utd w = .ok () (w.without id utd.mTx) := by
  unfold giveUp rechargeTransfers
  rw [bind_of_ok (rechargeInputs_eq h _)]
  rfl

theorem giveUpAll_eq (h : w.Exact) (entries : List (Hash × UnconfirmedTransferDetails)) :
    giveUpAll entries w =
      .ok () (entries.foldl (fun w e => w.without e.1 e.2.mTx) w) := by
  induction entries generalizing w with
  | nil => rfl
  | cons e rest ih =>
    unfold giveUpAll
    rw [bind_of_ok (giveUp_eq h e.1 e.2), ih (h.without _ _)]
    rfl

/-- All at once: every entry is gone, and every input's output is unspent. -/
theorem foldl_without (entries : List (Hash × UnconfirmedTransferDetails)) :
    entries.foldl (fun w e => w.without e.1 e.2.mTx) w =
      { w.recharge (entries.flatMap fun e => inputImages e.2.mTx.vin) with
        mUnconfirmedTxs := entries.foldl (fun m e => m.erase e.1) w.mUnconfirmedTxs } := by
  induction entries generalizing w with
  | nil =>
    rw [List.flatMap_nil, recharge_nil]
    rfl
  | cons e rest ih =>
    rw [List.foldl_cons, ih, List.flatMap_cons, ← recharge_append]
    rfl

theorem getElem?_foldl_erase_ids (entries : List (Hash × UnconfirmedTransferDetails))
    (m : Map Hash UnconfirmedTransferDetails) (id : Hash) :
    (entries.foldl (fun m e => m.erase e.1) m)[id]? =
      if id ∈ entries.map Prod.fst then none else m[id]? := by
  induction entries generalizing m with
  | nil => exact (if_neg List.not_mem_nil).symm
  | cons e rest ih =>
    rw [List.foldl_cons, ih, List.map_cons]
    by_cases hid : id = e.1
    · rw [hid, Std.ExtTreeMap.getElem?_erase_self, if_pos List.mem_cons_self, ite_self]
    · rw [FinMap.getElem?_erase_ne hid]
      simp only [List.mem_cons, hid, false_or]

/-- What is given up at a text, out of what is pending. -/
structure Wallet2.GivesUp (txid : Blob) (w : Wallet2)
    (entries : List (Hash × UnconfirmedTransferDetails)) (w' : Wallet2) : Prop where
  pending : ∀ e ∈ entries, w.mUnconfirmedTxs[e.1]? = some e.2 ∧ Names txid e.1
  transfers : w'.mTransfers =
    w.mTransfers.map (TransferDetails.rechargeIf (entries.flatMap fun e => inputImages e.2.mTx.vin))
  images : w'.mKeyImages = w.mKeyImages
  account : w'.mAccount = w.mAccount
  blockchain : w'.mBlockchain = w.mBlockchain
  unconfirmed : ∀ id, w'.mUnconfirmedTxs[id]? =
    if id ∈ entries.map Prod.fst then none else w.mUnconfirmedTxs[id]?

theorem Wallet2.GivesUp.refl (txid : Blob) (w : Wallet2) : w.GivesUp txid [] w where
  pending := nofun
  transfers := congrArg Wallet2.mTransfers (recharge_nil w).symm
  images := rfl
  account := rfl
  blockchain := rfl
  unconfirmed _ := (if_neg List.not_mem_nil).symm

/-- Whatever the text, some of what is pending is given up, and nothing is thrown. -/
theorem deleteUnconfirmedTx_givesUp (h : w.Exact) (txid : Blob) :
    ∃ (found : Bool) (w' : Wallet2) (entries : List (Hash × UnconfirmedTransferDetails)),
      deleteUnconfirmedTx txid w = .ok found w' ∧ w.GivesUp txid entries w' ∧
      (entries = [] ∨ (∃ e, entries = [e]) ∨ ∀ id : Hash, w'.mUnconfirmedTxs[id]? = none) := by
  unfold deleteUnconfirmedTx
  rw [bind_of_ok (get_apply w)]
  by_cases hall : txid.map toLower = allText
  · rw [if_pos hall, bind_of_ok (giveUpAll_eq h _), foldl_without]
    -- with "all" every pending transaction is given up
    have hids : ∀ id, (w.mUnconfirmedTxs.toList.foldl (fun m e => m.erase e.1)
        w.mUnconfirmedTxs)[id]? = if id ∈ w.mUnconfirmedTxs.toList.map Prod.fst then none
          else w.mUnconfirmedTxs[id]? :=
      fun id => getElem?_foldl_erase_ids _ _ id
    refine ⟨true, _, w.mUnconfirmedTxs.toList, rfl, ⟨?_, rfl, rfl, rfl, rfl, hids⟩, .inr (.inr ?_)⟩
    · rintro ⟨id, utd⟩ he
      exact ⟨Std.ExtTreeMap.mem_toList_iff_getElem?_eq_some.1 he, .inl hall⟩
    · intro id
      refine (hids id).trans ?_
      by_cases hid : id ∈ w.mUnconfirmedTxs.toList.map Prod.fst
      · exact if_pos hid
      · rw [if_neg hid]
        cases hget : w.mUnconfirmedTxs[id]? with
        | none => rfl
        | some utd =>
          have hmem := Std.ExtTreeMap.mem_toList_iff_getElem?_eq_some.2 hget
          exact absurd (List.mem_map_of_mem (f := Prod.fst) hmem) hid
  · rw [if_neg hall]
    cases hparse : parsePaymentIdFromHexStr (txid.map toLower) with
    | none =>
      exact ⟨false, w, [], rfl, .refl txid w, .inl rfl⟩
    | some id =>
      cases hid : w.mUnconfirmedTxs[id]? with
      | none =>
        simp only [hid]
        exact ⟨false, w, [], rfl, .refl txid w, .inl rfl⟩
      | some utd =>
        simp only [hid]
        rw [bind_of_ok (giveUp_eq h id utd)]
        refine ⟨true, _, [(id, utd)], rfl, ⟨?_, ?_, rfl, rfl, rfl, ?_⟩, .inr (.inl ⟨_, rfl⟩)⟩
        · intro e he
          rw [List.mem_singleton.1 he]
          exact ⟨hid, .inr hparse⟩
        · rw [List.flatMap_singleton]
          rfl
        · intro id'
          show (w.mUnconfirmedTxs.erase id)[id']? = _
          rw [List.map_singleton]
          by_cases hsame : id' = id
          · rw [hsame, Std.ExtTreeMap.getElem?_erase_self, if_pos (List.mem_singleton_self _)]
          · rw [FinMap.getElem?_erase_ne hsame, if_neg (by rwa [List.mem_singleton])]

/-- A transaction given up by its id. -/
theorem deleteUnconfirmedTx_one (h : w.Exact) {txid : Blob} {id : Hash}
    {utd : UnconfirmedTransferDetails} (hne : txid.map toLower ≠ allText)
    (hparse : parsePaymentIdFromHexStr (txid.map toLower) = some id)
    (hid : w.mUnconfirmedTxs[id]? = some utd) :
    deleteUnconfirmedTx txid w = .ok true (w.without id utd.mTx) := by
  unfold deleteUnconfirmedTx
  rw [bind_of_ok (get_apply w), if_neg hne, hparse]
  simp only [hid]
  rw [bind_of_ok (giveUp_eq h id utd)]
  rfl

end

end DarknetSpace
