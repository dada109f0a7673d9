import DarknetSpace.Wallet.Spendable

/-!
# What giving a payment up undoes

Right after a transfer `delete_unconfirmed_tx` takes back what the transfer did.
Later on it knows no more than the pending transaction: an output of its inputs
counts as unspent again even where a block has spent it under another
transaction, or another pending transaction has it too. Neither can be as long as
blocks spend no output of a transaction that stays pending, nor bring it again.

`Wallet2.Settled` says of a wallet that its pending transactions share no output with
each other or with what blocks have spent, and `LeavesPending` of an event that it does
not change that. Main result: `cancel_undoes_while_apart`. It is a statement about runs
of transfers, blocks and cancellations: as long as the blocks keep apart from what stays
pending, the invariant holds, and giving a payment up takes back what its transfer did,
and nothing else.
-/

namespace DarknetSpace

open StateExn

/-- What is pending spends outputs of its own, which no block has spent. -/
structure Wallet2.Settled (we : WalletEnv) (acc : AccountBase) (seen : List KeyImage) (w : Wallet2) :
    Prop extends w.Countable seen where
  account : w.mAccount = acc
  derived : ∀ td ∈ w.mTransfers, td.Derived we acc
  unconfirmed : ∀ (id : Hash) (utd : UnconfirmedTransferDetails),
    w.mUnconfirmedTxs[id]? = some utd → ∀ k ∈ inputImages utd.mTx.vin, k ∉ seen
  spent : ∀ (id : Hash) (utd : UnconfirmedTransferDetails), w.mUnconfirmedTxs[id]? = some utd →
    ∀ td ∈ w.mTransfers, td.mKeyImage ∈ inputImages utd.mTx.vin → td.mSpent = true
  apart : ∀ (id id' : Hash) (utd utd' : UnconfirmedTransferDetails),
    w.mUnconfirmedTxs[id]? = some utd → w.mUnconfirmedTxs[id']? = some utd' → id ≠ id' →
    ∀ k ∈ inputImages utd.mTx.vin, k ∉ inputImages utd'.mTx.vin

/-- No block interferes with what stays pending behind it, and no transaction that
is sent has the id of another that is pending. -/
def LeavesPending (we : WalletEnv) (e : WalletEvent) (j : Journal) : Prop :=
  match e with
  | .block s => NewImages we j.wallet j.spent.flatten s ∧
      ∀ e ∈ j.wallet.mUnconfirmedTxs.toList,
        e.1 ∉ (s.scanned we.env j.wallet.mAccount).map (getTransactionHash we.env) →
        ∀ k ∈ inputImages e.2.mTx.vin, k ∉ s.spends we j.wallet.mAccount ++
          (s.scanned we.env j.wallet.mAccount).flatMap (txImages (we.serving s) j.wallet.mAccount)
  | .send te o => ∀ built ∈ (buildTransfer { te with we } o j.wallet).toOption,
      j.wallet.mUnconfirmedTxs[getTransactionHash we.env built.tx]? = none
  | .detach _ | .cancel _ => True

/-- Giving up takes back a transfer just made, and sets no output free that
something else has spent. -/
structure Undoes (we : WalletEnv) (j : Journal) : Prop where
  /-- by any text that stands for the id -/
  undo : ∀ (te : TransferEnv) (o : TransferOrder) (tx : Transaction) (w' : Wallet2),
    LeavesPending we (.send te o) j → transfer { te with we } o j.wallet = .ok tx w' →
    ∀ txid : Blob, txid.map toLower ≠ allText →
      parsePaymentIdFromHexStr (txid.map toLower) = some (getTransactionHash we.env tx) →
      ∃ w'', deleteUnconfirmedTx txid w' = .ok true w'' ∧
        w''.mTransfers = j.wallet.mTransfers ∧ w''.mUnconfirmedTxs = j.wallet.mUnconfirmedTxs ∧
        w''.balance = j.wallet.balance ∧
        ∀ now, w''.unlockedBalance now = j.wallet.unlockedBalance now
  nothingElse : ∀ txid : Blob, ∃ found w', deleteUnconfirmedTx txid j.wallet = .ok found w' ∧
    ∀ (i : Nat) (td td' : TransferDetails), j.wallet.mTransfers[i]? = some td →
      w'.mTransfers[i]? = some td' → td.mSpent = true → td'.mSpent = false →
      td.mKeyImage ∉ j.spent.flatten ∧
      ∀ (id : Hash) (utd : UnconfirmedTransferDetails), w'.mUnconfirmedTxs[id]? = some utd →
        td.mKeyImage ∉ inputImages utd.mTx.vin

section

variable {we : WalletEnv} {acc : AccountBase} {w w' : Wallet2} {seen : List KeyImage}

/-! ## A transfer taken back -/

/-- A transfer spends what it selects, and is pending under its id. -/
theorem transfer_ok {te : TransferEnv} {o : TransferOrder} {tx : Transaction}
    (hderived : ∀ td ∈ w.mTransfers, td.Derived te.we w.mAccount)
    (hrun : transfer te o w = .ok tx w') :
    ∃ (selected : List Nat) (utd : UnconfirmedTransferDetails), utd.mTx = tx ∧
      (∀ i ∈ selected, ∃ td, w.mTransfers[i]? = some td ∧ td.mSpent = false) ∧
      inputImages tx.vin =
        (selected.filterMap fun i => w.mTransfers[i]?).map TransferDetails.mKeyImage ∧
      w' = { w with
        mTransfers := selected.foldl (fun tds i => tds.modify i TransferDetails.spend) w.mTransfers
        mUnconfirmedTxs := w.mUnconfirmedTxs.insert (getTransactionHash te.we.env tx) utd } := by
  obtain ⟨built, hbuilt, rfl, rfl⟩ := transfer_built hrun
  obtain ⟨hunspent, himages⟩ := buildTransfer_selects hbuilt hderived
  exact ⟨built.selected, _, rfl, hunspent, himages, rfl⟩

/-- With one output for a key image, the selected outputs are known by theirs. -/
theorem selected_image {tds : List TransferDetails} (selected : List Nat)
    (hnodup : (tds.map TransferDetails.mKeyImage).Nodup) {i : Nat} {td : TransferDetails}
    (htd : tds[i]? = some td) :
    td.mKeyImage ∈ (selected.filterMap fun i => tds[i]?).map TransferDetails.mKeyImage ↔
      i ∈ selected := by
  constructor
  · intro hmem
    obtain ⟨td', htd', himage⟩ := List.mem_map.1 hmem
    obtain ⟨i', hi', hget⟩ := List.mem_filterMap.1 htd'
    have hlen : i' < (tds.map TransferDetails.mKeyImage).length := by
      rw [List.length_map]
      exact (List.getElem?_eq_some_iff.1 hget).1
    have hplace : i' = i := by
      refine (List.getElem?_inj hlen hnodup).1 ?_
      rw [List.getElem?_map, List.getElem?_map, hget, htd, Option.map_some, Option.map_some, himage]
    rw [← hplace]
    exact hi'
  · intro hi
    exact List.mem_map_of_mem (List.mem_filterMap.2 ⟨i, hi, htd⟩)

/-- Spending and setting free again is nothing, for outputs that were unspent. -/
theorem recharge_foldl_spend {tds : List TransferDetails} {selected : List Nat}
    (hnodup : (tds.map TransferDetails.mKeyImage).Nodup)
    (hunspent : ∀ i ∈ selected, ∃ td, tds[i]? = some td ∧ td.mSpent = false) :
    (selected.foldl (fun tds i => tds.modify i TransferDetails.spend) tds).map
      (TransferDetails.rechargeIf
        ((selected.filterMap fun i => tds[i]?).map TransferDetails.mKeyImage)) = tds := by
  apply List.ext_getElem?
  intro i
  rw [List.getElem?_map, getElem?_foldl_spend, Option.map_map]
  cases htd : tds[i]? with
  | none => rfl
  | some td =>
    rw [Option.map_some]
    refine congrArg some ?_
    show TransferDetails.rechargeIf _ (if i ∈ selected then td.spend else td) = td
    have hmine := selected_image selected hnodup htd
    by_cases hi : i ∈ selected
    · obtain ⟨td', htd', hspent⟩ := hunspent i hi
      rw [htd] at htd'
      cases htd'
      rw [if_pos hi]
      unfold TransferDetails.rechargeIf
      rw [if_pos (show td.spend.mKeyImage ∈ _ from hmine.2 hi)]
      unfold TransferDetails.spend
      obtain ⟨height, tx, index, global, spent, image⟩ := td
      simp only at hspent
      rw [hspent]
    · rw [if_neg hi]
      unfold TransferDetails.rechargeIf
      rw [if_neg (by rw [hmine]; exact hi)]

theorem balance_of_same (htransfers : w'.mTransfers = w.mTransfers)
    (hpending : w'.mUnconfirmedTxs = w.mUnconfirmedTxs) : w'.balance = w.balance := by
  unfold Wallet2.balance
  rw [htransfers, hpending]

theorem unlockedBalance_of_same (htransfers : w'.mTransfers = w.mTransfers)
    (hchain : w'.mBlockchain = w.mBlockchain) (now : Nat) :
    w'.unlockedBalance now = w.unlockedBalance now := by
  unfold Wallet2.unlockedBalance Wallet2.isTransferUnlocked Wallet2.isTxSpendtimeUnlocked
  rw [htransfers, hchain]

theorem Wallet2.Settled.undo {te : TransferEnv} {o : TransferOrder} {tx : Transaction}
    (h : w.Settled we acc seen) (hrun : transfer { te with we } o w = .ok tx w')
    (hnew : w.mUnconfirmedTxs[getTransactionHash we.env tx]? = none) {txid : Blob}
    (hne : txid.map toLower ≠ allText)
    (hparse : parsePaymentIdFromHexStr (txid.map toLower) = some (getTransactionHash we.env tx)) :
    ∃ w'', deleteUnconfirmedTx txid w' = .ok true w'' ∧ w''.mTransfers = w.mTransfers ∧
      w''.mUnconfirmedTxs = w.mUnconfirmedTxs ∧ w''.balance = w.balance ∧
      ∀ now, w''.unlockedBalance now = w.unlockedBalance now := by
  have hsent := h.toCountable.send hrun
  obtain ⟨selected, utd, hutd, hunspent, himages, rfl⟩ :=
    transfer_ok (by rw [h.account]; exact h.derived) hrun
  have hdelete := deleteUnconfirmedTx_one hsent.exact hne hparse Std.ExtTreeMap.getElem?_insert_self
  have htransfers := recharge_foldl_spend h.exact.nodup hunspent
  rw [← himages, ← hutd] at htransfers
  have hpending : (w.mUnconfirmedTxs.insert (getTransactionHash we.env tx) utd).erase
      (getTransactionHash we.env tx) = w.mUnconfirmedTxs :=
    FinMap.erase_insert_of_not_contains utd hnew
  exact ⟨_, hdelete, htransfers, hpending, balance_of_same htransfers hpending,
    unlockedBalance_of_same htransfers rfl⟩

/-! ## Nothing else -/

theorem rechargeIf_freed {ks : List KeyImage} {td : TransferDetails} (hspent : td.mSpent = true)
    (h : (td.rechargeIf ks).mSpent = false) : td.mKeyImage ∈ ks := by
  rcases rechargeIf_unspent h with hunspent | hk
  · rw [hspent] at hunspent
    cases hunspent
  · exact hk

/-- What has been given up stays apart from what has not. -/
theorem Wallet2.Settled.nothingElse (h : w.Settled we acc seen) (txid : Blob) :
    ∃ found w', deleteUnconfirmedTx txid w = .ok found w' ∧
      ∀ (i : Nat) (td td' : TransferDetails), w.mTransfers[i]? = some td →
        w'.mTransfers[i]? = some td' → td.mSpent = true → td'.mSpent = false →
        td.mKeyImage ∉ seen ∧
        ∀ (id : Hash) (utd : UnconfirmedTransferDetails), w'.mUnconfirmedTxs[id]? = some utd →
          td.mKeyImage ∉ inputImages utd.mTx.vin := by
  obtain ⟨found, w', entries, hdelete, hgive, -⟩ := deleteUnconfirmedTx_givesUp h.exact txid
  refine ⟨found, w', hdelete, ?_⟩
  intro i td td' htd htd' hspent hfree
  rw [hgive.transfers, List.getElem?_map, htd] at htd'
  cases htd'
  obtain ⟨e, he, hk⟩ := List.mem_flatMap.1 (rechargeIf_freed hspent hfree)
  have hpending := (hgive.pending e he).1
  refine ⟨h.unconfirmed e.1 e.2 hpending _ hk, ?_⟩
  intro id utd hid
  rw [hgive.unconfirmed] at hid
  by_cases hgone : id ∈ entries.map Prod.fst
  · rw [if_pos hgone] at hid
    cases hid
  · rw [if_neg hgone] at hid
    have hne : e.1 ≠ id := by
      rintro rfl
      exact hgone (List.mem_map_of_mem he)
    exact h.apart e.1 id e.2 utd hpending hid hne _ hk

theorem Wallet2.Settled.undoes {j : Journal} (h : j.wallet.Settled we acc j.spent.flatten) :
    Undoes we j where
  undo te o tx w' hleaves hrun txid hne hparse := by
    obtain ⟨built, hbuilt, htx, -⟩ := transfer_built hrun
    have hnew := hleaves built (by rw [hbuilt]; rfl)
    rw [htx] at hnew
    exact h.undo hrun hnew hne hparse
  nothingElse := h.nothingElse

/-! ## What every event keeps -/

theorem Wallet2.Settled.block {s : ServedBlock} (h : w.Settled we acc seen)
    (hnew : NewImages we w seen s)
    (hleaves : ∀ e ∈ w.mUnconfirmedTxs.toList,
      e.1 ∉ (s.scanned we.env w.mAccount).map (getTransactionHash we.env) →
      ∀ k ∈ inputImages e.2.mTx.vin, k ∉ s.spends we w.mAccount ++
        (s.scanned we.env w.mAccount).flatMap (txImages (we.serving s) w.mAccount))
    {height : Nat}
    (hrun : processNewBlockchainEntry (we.serving s) s.b s.txs s.blId height w = .ok () w') :
    w'.Settled we acc (seen ++ s.spends we w.mAccount) := by
  obtain ⟨hcount, haccount, hpending, htransfers⟩ :=
    h.toCountable.processNewBlockchainEntry hnew hrun
  have hstays : ∀ (id : Hash) (utd : UnconfirmedTransferDetails), w'.mUnconfirmedTxs[id]? = some utd →
      w.mUnconfirmedTxs[id]? = some utd ∧ ∀ k ∈ inputImages utd.mTx.vin,
        k ∉ s.spends we w.mAccount ∧
        k ∉ (s.scanned we.env w.mAccount).flatMap (txImages (we.serving s) w.mAccount) := by
    intro id utd hid
    rw [hpending] at hid
    by_cases hmem : id ∈ (s.scanned we.env w.mAccount).map (getTransactionHash (we.serving s).env)
    · rw [if_pos hmem] at hid
      cases hid
    · rw [if_neg hmem] at hid
      refine ⟨hid, fun k hk => ?_⟩
      have hnot := hleaves (id, utd) (Std.ExtTreeMap.mem_toList_iff_getElem?_eq_some.2 hid) hmem k hk
      rw [List.mem_append, not_or] at hnot
      exact hnot
  refine ⟨hcount, haccount.trans h.account, ?_, ?_, ?_, ?_⟩
  · intro td htd
    rcases htransfers td htd with ⟨td', htd', rfl | rfl⟩ | ⟨hderived, -⟩
    · exact h.derived td htd'
    · exact h.derived td' htd'
    · rw [h.account] at hderived
      exact hderived
  · intro id utd hid k hk
    obtain ⟨hold, hnot⟩ := hstays id utd hid
    rw [List.mem_append, not_or]
    exact ⟨h.unconfirmed id utd hold k hk, (hnot k hk).1⟩
  · intro id utd hid td htd hk
    obtain ⟨hold, hnot⟩ := hstays id utd hid
    rcases htransfers td htd with ⟨td', htd', rfl | rfl⟩ | ⟨-, hbrought⟩
    · exact h.spent id utd hold td htd' hk
    · rfl
    · exact absurd hbrought (hnot _ hk).2
  · intro id id' utd utd' hid hid' hne
    exact h.apart id id' utd utd' (hstays id utd hid).1 (hstays id' utd' hid').1 hne

theorem Wallet2.Settled.detach {height : Nat} {spent : List (List KeyImage)}
    (h : w.Settled we acc spent.flatten) (hrun : detachBlockchain height w = .ok () w') :
    w'.Settled we acc (spent.take height).flatten := by
  have hcount := h.toCountable.detach hrun
  rw [detachBlockchain_eq h.exact (detachBlockchain_le hrun)] at hrun
  cases hrun
  have hkept : ∀ td ∈ (w.cut height).mTransfers, td ∈ w.mTransfers :=
    fun td htd => (List.takeWhile_sublist _).mem htd
  refine ⟨hcount, h.account, fun td htd => h.derived td (hkept td htd), ?_, ?_, h.apart⟩
  · intro id utd hid k hk hmem
    obtain ⟨ks, hks, hmem⟩ := List.mem_flatten.1 hmem
    exact h.unconfirmed id utd hid k hk
      (List.mem_flatten.2 ⟨ks, List.mem_of_mem_take hks, hmem⟩)
  · exact fun id utd hid td htd => h.spent id utd hid td (hkept td htd)

theorem Wallet2.Settled.send {te : TransferEnv} {o : TransferOrder} {tx : Transaction}
    (h : w.Settled we acc seen) (hrun : transfer { te with we } o w = .ok tx w') :
    w'.Settled we acc seen := by
  have hcount := h.toCountable.send hrun
  obtain ⟨selected, utd, hutd, hunspent, himages, rfl⟩ :=
    transfer_ok (by rw [h.account]; exact h.derived) hrun
  -- what the transaction spends were unspent outputs of the wallet
  have hmine : ∀ k ∈ inputImages tx.vin, ∃ td ∈ w.mTransfers, td.mSpent = false ∧ td.mKeyImage = k := by
    intro k hk
    rw [himages] at hk
    obtain ⟨td, htd, rfl⟩ := List.mem_map.1 hk
    obtain ⟨i, hi, hget⟩ := List.mem_filterMap.1 htd
    obtain ⟨td', htd', hspent⟩ := hunspent i hi
    rw [hget] at htd'
    cases htd'
    exact ⟨td, List.mem_of_getElem? hget, hspent, rfl⟩
  have hfrom : ∀ td' ∈ selected.foldl (fun tds i => tds.modify i TransferDetails.spend) w.mTransfers,
      ∃ i td, w.mTransfers[i]? = some td ∧ td' = if i ∈ selected then td.spend else td := by
    intro td' htd'
    obtain ⟨i, hi⟩ := List.mem_iff_getElem?.1 htd'
    have hget := getElem?_foldl_spend selected w.mTransfers i
    obtain ⟨td, htd, hsame⟩ := Option.map_eq_some_iff.1 (hget.symm.trans hi)
    exact ⟨i, td, htd, hsame.symm⟩
  have hentry : ∀ (id : Hash) (utd' : UnconfirmedTransferDetails),
      (w.mUnconfirmedTxs.insert (getTransactionHash we.env tx) utd)[id]? = some utd' →
      (id = getTransactionHash we.env tx ∧ utd' = utd) ∨
        (id ≠ getTransactionHash we.env tx ∧ w.mUnconfirmedTxs[id]? = some utd') := by
    intro id utd' hid
    by_cases hsame : id = getTransactionHash we.env tx
    · rw [hsame, Std.ExtTreeMap.getElem?_insert_self] at hid
      exact .inl ⟨hsame, (Option.some.inj hid).symm⟩
    · rw [FinMap.getElem?_insert_ne hsame] at hid
      exact .inr ⟨hsame, hid⟩
  -- and nothing that is pending already spends them
  have hfree : ∀ (id : Hash) (utd' : UnconfirmedTransferDetails), w.mUnconfirmedTxs[id]? = some utd' →
      ∀ k ∈ inputImages tx.vin, k ∉ inputImages utd'.mTx.vin := by
    intro id utd' hid k hk hk'
    obtain ⟨td, htd, hspent, rfl⟩ := hmine k hk
    rw [h.spent id utd' hid td htd hk'] at hspent
    cases hspent
  refine ⟨hcount, h.account, ?_, ?_, ?_, ?_⟩
  · intro td' htd'
    obtain ⟨i, td, htd, rfl⟩ := hfrom td' htd'
    have hderived := h.derived td (List.mem_of_getElem? htd)
    split
    · exact hderived
    · exact hderived
  · intro id utd' hid k hk
    rcases hentry id utd' hid with ⟨-, rfl⟩ | ⟨-, hold⟩
    · rw [hutd] at hk
      obtain ⟨td, htd, hspent, rfl⟩ := hmine k hk
      exact h.unspent td htd hspent
    · exact h.unconfirmed id utd' hold k hk
  · intro id utd' hid td' htd' hk
    obtain ⟨i, td, htd, rfl⟩ := hfrom td' htd'
    by_cases hsel : i ∈ selected
    · rw [if_pos hsel]
      rfl
    · rw [if_neg hsel] at hk ⊢
      rcases hentry id utd' hid with ⟨-, rfl⟩ | ⟨-, hold⟩
      · rw [hutd, himages] at hk
        exact absurd ((selected_image selected h.exact.nodup htd).1 hk) hsel
      · exact h.spent id utd' hold td (List.mem_of_getElem? htd) hk
  · intro id id' utd₁ utd₂ hid hid' hne k hk
    rcases hentry id utd₁ hid with ⟨rfl, rfl⟩ | ⟨-, hold⟩
    · rcases hentry id' utd₂ hid' with ⟨rfl, -⟩ | ⟨-, hold'⟩
      · exact absurd rfl hne
      · rw [hutd] at hk
        exact hfree id' utd₂ hold' k hk
    · rcases hentry id' utd₂ hid' with ⟨rfl, rfl⟩ | ⟨-, hold'⟩
      · rw [hutd]
        exact fun hk' => hfree id utd₁ hold k hk' hk
      · exact h.apart id id' utd₁ utd₂ hold hold' hne k hk

theorem Wallet2.Settled.cancel {txid : Blob}
    {entries : List (Hash × UnconfirmedTransferDetails)} (h : w.Settled we acc seen)
    (hgive : w.GivesUp txid entries w') : w'.Settled we acc seen := by
  have hstays : ∀ (id : Hash) (utd : UnconfirmedTransferDetails), w'.mUnconfirmedTxs[id]? = some utd →
      id ∉ entries.map Prod.fst ∧ w.mUnconfirmedTxs[id]? = some utd := by
    intro id utd hid
    rw [hgive.unconfirmed] at hid
    by_cases hgone : id ∈ entries.map Prod.fst
    · rw [if_pos hgone] at hid
      cases hid
    · rw [if_neg hgone] at hid
      exact ⟨hgone, hid⟩
  refine ⟨h.toCountable.givesUp hgive ?_, hgive.account.trans h.account, ?_, ?_, ?_, ?_⟩
  · exact fun e he => h.unconfirmed e.1 e.2 (hgive.pending e he).1
  · intro td' htd'
    rw [hgive.transfers] at htd'
    obtain ⟨td, htd, rfl⟩ := List.mem_map.1 htd'
    have hderived := h.derived td htd
    unfold TransferDetails.rechargeIf
    split
    · exact hderived
    · exact hderived
  · exact fun id utd hid => h.unconfirmed id utd (hstays id utd hid).2
  · intro id utd hid td' htd' hk
    obtain ⟨hkept, hold⟩ := hstays id utd hid
    rw [hgive.transfers] at htd'
    obtain ⟨td, htd, rfl⟩ := List.mem_map.1 htd'
    rw [rechargeIf_mKeyImage] at hk
    have hspent := h.spent id utd hold td htd hk
    by_contra hfree
    obtain ⟨e, he, hk'⟩ := List.mem_flatMap.1 (rechargeIf_freed hspent (Bool.not_eq_true _ ▸ hfree))
    have hne : e.1 ≠ id := by
      rintro rfl
      exact hkept (List.mem_map_of_mem he)
    exact h.apart e.1 id e.2 utd (hgive.pending e he).1 hold hne _ hk' hk
  · intro id id' utd utd' hid hid'
    exact h.apart id id' utd utd' (hstays id utd hid).2 (hstays id' utd' hid').2

/-- One event under the condition. -/
theorem walletStep_settled {e : WalletEvent} {j j' : Journal}
    (h : j.wallet.Settled we acc j.spent.flatten) (hleaves : LeavesPending we e j)
    (hstep : walletStep we e j = some j') : j'.wallet.Settled we acc j'.spent.flatten := by
  cases e with
  | block s =>
    unfold walletStep at hstep
    simp only at hstep
    split at hstep
    · next w hread =>
      cases hstep
      rw [List.flatten_concat]
      exact h.block hleaves.1 hleaves.2 hread
    · cases hstep
  | detach height =>
    unfold walletStep at hstep
    simp only at hstep
    split at hstep
    · next w hcut =>
      cases hstep
      exact h.detach hcut
    · cases hstep
  | send te o =>
    unfold walletStep at hstep
    simp only at hstep
    split at hstep
    · next tx w hsent =>
      cases hstep
      exact h.send hsent
    · cases hstep
  | cancel txid =>
    unfold walletStep at hstep
    simp only at hstep
    obtain ⟨found, w', entries, hdelete, hgive, -⟩ := deleteUnconfirmedTx_givesUp h.exact txid
    rw [hdelete] at hstep
    cases hstep
    exact h.cancel hgive

theorem fresh_settled (we : WalletEnv) (acc : AccountBase) (g : Hash) (seen : List KeyImage) :
    (Wallet2.fresh acc g).Settled we acc seen where
  toCountable := fresh_countable we acc g seen
  account := rfl
  derived := nofun
  unconfirmed id utd h := by
    rw [show (Wallet2.fresh acc g).mUnconfirmedTxs[id]? = none from Std.ExtTreeMap.getElem?_empty] at h
    cases h
  spent _ _ _ := nofun
  apart id _ utd _ h := by
    rw [show (Wallet2.fresh acc g).mUnconfirmedTxs[id]? = none from Std.ExtTreeMap.getElem?_empty] at h
    cases h

end

/-- As long as no block spends or brings again what stays pending, giving a payment
up undoes it and nothing else. -/
theorem cancel_undoes_while_apart {we : WalletEnv} {acc : AccountBase} {g : Hash}
    {es : List WalletEvent} {j : Journal}
    (hmeets : Runs.Meets (walletStep we) (LeavesPending we) es (.fresh acc g))
    (hrun : Runs.run (walletStep we) es (.fresh acc g) = some j) : Undoes we j := by
  have hsettled : j.wallet.Settled we acc j.spent.flatten :=
    Runs.run_keeps (I := fun j : Journal => j.wallet.Settled we acc j.spent.flatten)
      (fun _ _ _ => walletStep_settled) (fresh_settled we acc g _) hmeets hrun
  exact hsettled.undoes

instance (we : WalletEnv) : ∀ (e : WalletEvent) (j : Journal), Decidable (LeavesPending we e j)
  | .block s, j =>
    have := decidableNone
    inferInstanceAs (Decidable (NewImages we j.wallet j.spent.flatten s ∧
      ∀ e ∈ j.wallet.mUnconfirmedTxs.toList,
        e.1 ∉ (s.scanned we.env j.wallet.mAccount).map (getTransactionHash we.env) →
        ∀ k ∈ inputImages e.2.mTx.vin, k ∉ s.spends we j.wallet.mAccount ++
          (s.scanned we.env j.wallet.mAccount).flatMap (txImages (we.serving s) j.wallet.mAccount)))
  | .send te o, j =>
    match h : (buildTransfer { te with we } o j.wallet).toOption with
    | none => isTrue (by
      intro built hbuilt
      rw [h] at hbuilt
      cases hbuilt)
    | some built =>
      decidable_of_iff (j.wallet.mUnconfirmedTxs[getTransactionHash we.env built.tx]?.isNone = true) (by
        show _ ↔ ∀ built ∈ (buildTransfer { te with we } o j.wallet).toOption,
          j.wallet.mUnconfirmedTxs[getTransactionHash we.env built.tx]? = none
        rw [h, Option.isNone_iff_eq_none]
        simp only [Option.mem_some_iff, forall_eq'])
  | .detach _, _ | .cancel _, _ => instDecidableTrue

namespace Devnet

/-- Another transaction in a block spends what the pending one spends. -/
def rivalBlock : ServedBlock := ⟨mainBlock 12, [[8, 2, 1, 0]], 13, answering⟩

def quietBlock : ServedBlock := ⟨mainBlock 12, [], 13, answering⟩

end Devnet

/-- Sent on, with a block that has nothing to do with it. -/
theorem cancel_undoes_while_apart_devnet :
    Undoes (Devnet.walletEnv Devnet.answering)
      (Devnet.lived (Devnet.sendsOn ++ [.block Devnet.quietBlock])) :=
  have eval :
      (Devnet.lives (Devnet.sendsOn ++ [.block Devnet.quietBlock])).isSome = true ∧
      Runs.Meets (walletStep (Devnet.walletEnv Devnet.answering))
        (LeavesPending (Devnet.walletEnv Devnet.answering))
        (Devnet.sendsOn ++ [.block Devnet.quietBlock]) (.fresh Devnet.purse 1) := by
    decide +kernel
  cancel_undoes_while_apart eval.2 (Devnet.lives_eq eval.1)

/-- Giving all up, the first output is set free that a key image in a block has spent. -/
def freesSpent (j : Journal) : EStateM.Result WalletError Wallet2 Bool → Option TransferDetails → Bool
  | .ok true w', some td => td.mSpent && j.spent.flatten.contains td.mKeyImage &&
    w'.mTransfers[0]?.any fun td' => !td'.mSpent
  | _, _ => false

/-- A block spends the output under another transaction; giving the pending one up
sets it free all the same. -/
theorem cancel_frees_spent :
    ∃ j w' td td', Runs.run (walletStep (Devnet.walletEnv Devnet.answering))
        (Devnet.sendsOn ++ [.block Devnet.rivalBlock]) (.fresh Devnet.purse 1) = some j ∧
      deleteUnconfirmedTx allText j.wallet = .ok true w' ∧
      j.wallet.mTransfers[0]? = some td ∧ w'.mTransfers[0]? = some td' ∧
      td.mSpent = true ∧ td'.mSpent = false ∧ td.mKeyImage ∈ j.spent.flatten ∧
      ¬ Undoes (Devnet.walletEnv Devnet.answering) j := by
  have eval :
      (Devnet.lives (Devnet.sendsOn ++ [.block Devnet.rivalBlock])).isSome = true ∧
      freesSpent (Devnet.lived (Devnet.sendsOn ++ [.block Devnet.rivalBlock]))
        (deleteUnconfirmedTx allText
          (Devnet.lived (Devnet.sendsOn ++ [.block Devnet.rivalBlock])).wallet)
        (Devnet.lived (Devnet.sendsOn ++ [.block Devnet.rivalBlock])).wallet.mTransfers[0]? =
          true := by
    decide +kernel
  obtain ⟨hlives, hfrees⟩ := eval
  have hrun := Devnet.lives_eq hlives
  generalize Devnet.lived (Devnet.sendsOn ++ [.block Devnet.rivalBlock]) = j at hrun hfrees
  unfold freesSpent at hfrees
  split at hfrees
  · next w' td hdelete htd =>
    rw [Bool.and_eq_true, Bool.and_eq_true, List.contains_iff_mem, Option.any_eq_true] at hfrees
    obtain ⟨⟨hspent, hseen⟩, td', htd', hfree⟩ := hfrees
    rw [Bool.not_eq_true'] at hfree
    refine ⟨j, w', td, td', hrun, hdelete, htd, htd', hspent, hfree, hseen, ?_⟩
    intro hundoes
    obtain ⟨found, w'', hdelete', hnothing⟩ := hundoes.nothingElse allText
    rw [hdelete] at hdelete'
    cases hdelete'
    exact (hnothing 0 td td' htd htd' hspent hfree).1 hseen
  · cases hfrees

end DarknetSpace
