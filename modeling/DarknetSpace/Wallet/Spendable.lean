import DarknetSpace.Wallet.Cancel
import DarknetSpace.Lib.Runs

/-!
# What a wallet counts as spendable

`m_transfers` keeps every output, `m_key_images` one index for a key image. A
sender chooses the transaction key, and two transactions under one key pay the
same one-time key: two entries then stand behind one key image, of which only
one can ever be spent, and `detach_blockchain` does not find the second again.
As long as every block brings key images that are new, reading, sending and
taking back keep the two containers in step.

`NewImages` is the condition on a block, said of the state it finds and of all the
images blocks have brought or spent before. Main result: `counts_once_while_new`, for
every sequence of blocks, transfers, detaches and cancellations. The run of the example
has two outputs under one key.
-/

namespace DarknetSpace

open StateExn

/-! ## Transactions that went through -/

section

variable {we : WalletEnv} {tx : Transaction} {height : Nat} {b : Block} {w w' : Wallet2}

/-- The history is all that `noteTransfer` touches. -/
theorem noteTransfer_ok {wti : WalletTransferInfo × Bool} {isIncome : Bool}
    {recipient recipientAlias : Blob}
    (h : noteTransfer wti isIncome recipient recipientAlias w = .ok () w') :
    w' = { w with mTransferHistory := w'.mTransferHistory } := by
  obtain ⟨wti, filled⟩ := wti
  cases filled with
  | false => cases h
  | true =>
    cases h
    rfl

/-- Noting a transaction writes the history only. -/
theorem noteTransfers_ok {env : Env} {got spent : UInt64} {mtd : MoneyTransfer2Details}
    {recipient recipientAlias : Blob}
    (h : noteTransfers env b tx got spent mtd recipient recipientAlias w = .ok () w') :
    w' = { w with mTransferHistory := w'.mTransferHistory } := by
  unfold noteTransfers at h
  by_cases hspent : spent ≠ 0
  · rw [if_pos hspent] at h
    by_cases hmore : spent > got
    · rw [if_pos hmore] at h
      exact noteTransfer_ok h
    · rw [if_neg hmore] at h
      obtain ⟨_, v, hv, hrest⟩ := bind_eq_ok.1 h
      rw [noteTransfer_ok hrest, noteTransfer_ok hv]
  · rw [if_neg hspent] at h
    by_cases hgot : got ≠ 0
    · rw [if_pos hgot] at h
      exact noteTransfer_ok h
    · rw [if_neg hgot] at h
      cases h
      rfl

/-- An output that was received: its key image was derived and new, and its transfer is at the end.
-/
theorem receiveOut_ok {r : TxReading} {o : Nat}
    (h : receiveOut we tx r.txPubKey height r.oIndexes o w = .ok () w') :
    (we.img.generateKeyImageHelper w.mAccount r.txPubKey o).isSome = true ∧
      w' = w.addTransfer (newTransfer we w.mAccount tx height r o) := by
  unfold receiveOut at h
  rw [bind_of_ok (get_apply w)] at h
  cases hout : tx.vout[o]? with
  | none =>
    rw [hout] at h
    cases h
  | some out =>
    rw [hout] at h
    obtain ⟨amount, target⟩ := out
    cases himage : we.img.generateKeyImageHelper w.mAccount r.txPubKey o with
    | none =>
      simp only [himage] at h
      cases h
    | some found =>
      obtain ⟨pub, image⟩ := found
      cases target with
      | toScript _ _ | toScripthash _ =>
        simp only [himage] at h
        cases h
      | toKey key attr =>
        simp only [himage] at h
        rw [bind_of_ok (set_apply ..)] at h
        by_cases hkey : pub ≠ key
        · rw [if_pos hkey] at h
          cases h
        · rw [if_neg hkey] at h
          cases h
          refine ⟨rfl, ?_⟩
          unfold Wallet2.addTransfer newTransfer
          rw [himage]
          simp only [List.length_append, List.length_singleton, Nat.add_sub_cancel,
            Option.map_some, Option.getD_some]

/-- The outputs of a transaction that were received, by induction on them. -/
theorem receiveOuts_ok {r : TxReading} {outs : List Nat}
    (h : receiveOuts we tx r.txPubKey height r.oIndexes outs w = .ok () w') :
    (∀ o ∈ outs, (we.img.generateKeyImageHelper w.mAccount r.txPubKey o).isSome = true) ∧
      w' = (outs.map (newTransfer we w.mAccount tx height r)).foldl Wallet2.addTransfer w := by
  induction outs generalizing w with
  | nil =>
    cases h
    exact ⟨nofun, rfl⟩
  | cons o outs ih =>
    unfold receiveOuts at h
    obtain ⟨_, v, hv, hrest⟩ := bind_eq_ok.1 h
    obtain ⟨hderived, rfl⟩ := receiveOut_ok hv
    obtain ⟨hall, rfl⟩ := ih hrest
    refine ⟨?_, rfl⟩
    intro o' ho'
    rcases List.mem_cons.1 ho' with rfl | ho'
    · exact hderived
    · exact hall o' ho'

/-- What a transaction that was received has written. -/
theorem receive_ok {r : TxReading} {found : AccOuts} {outs : List Nat}
    (hlook : lookupTx we.env w.mAccount.keys tx = .ok found) (hread : readTx we w.mAccount tx = .ok r)
    (h : receive we tx height found w = .ok outs w') :
    outs = r.outs ∧
      (∀ o ∈ r.outs, (we.img.generateKeyImageHelper w.mAccount r.txPubKey o).isSome = true) ∧
      w' = (newTransfers we w.mAccount tx height r).foldl Wallet2.addTransfer w := by
  obtain ⟨found', hlook', -, hkey, hcase⟩ := readTx_found hread
  rw [hlook] at hlook'
  cases hlook'
  unfold receive at h
  unfold newTransfers
  rcases hcase with ⟨hne, hgot, hask, hr⟩ | ⟨hnone, hr⟩
  · rw [if_pos ⟨hne, hgot⟩] at h
    have hreads : reads (fun _ => askOIndexes we tx) w = .ok r.oIndexes w := reads_of_ok hask
    rw [bind_of_ok hreads] at h
    obtain ⟨_, v, hv, hrest⟩ := bind_eq_ok.1 h
    cases hrest
    rw [hkey] at hv
    rw [hr]
    exact ⟨rfl, receiveOuts_ok hv⟩
  · rw [if_neg hnone] at h
    cases h
    rw [hr]
    exact ⟨rfl, nofun, rfl⟩

/-- A transaction that went through was read and scanned; only its entry in the
history may have been cut short. -/
theorem processNewTransaction_ok (hi : w.Indexed)
    (h : processNewTransaction we tx height b w = .ok () w') :
    ∃ r, readTx we w.mAccount tx = .ok r ∧
      (∀ o ∈ r.outs, (we.img.generateKeyImageHelper w.mAccount r.txPubKey o).isSome = true) ∧
      w' = { scanTx we tx height b r w with mTransferHistory := w'.mTransferHistory } := by
  cases hread : readTx we w.mAccount tx with
  | error ex =>
    rw [processNewTransaction_unread hread] at h
    cases h
  | ok r =>
    obtain ⟨found, hlook, hgot, -, -⟩ := readTx_found hread
    unfold processNewTransaction at h
    rw [bind_of_ok (processUnconfirmed_eq we.env tx w),
      bind_of_ok (reads_of_ok (s := w.settle we.env tx) hlook)] at h
    obtain ⟨outs, v, hv, h⟩ := bind_eq_ok.1 h
    obtain ⟨rfl, hderived, rfl⟩ := receive_ok (w := w.settle we.env tx) hlook hread hv
    have hindexed : (w.settle we.env tx).Indexed := hi
    rw [bind_of_ok (spendInputs_eq (foldl_addTransfer_indexed hindexed _) 0)] at h
    simp only at h
    rw [bind_of_ok (notePayment_eq ..), hgot] at h
    refine ⟨r, rfl, hderived, ?_⟩
    rw [noteTransfers_ok h]
    rfl

end

/-! ## New key images -/

/-- The key images of the outputs a transaction brings. -/
def txImages (we : WalletEnv) (acc : AccountBase) (tx : Transaction) : List KeyImage :=
  match readTx we acc tx with
  | .ok r => r.outs.map fun o => ((we.img.generateKeyImageHelper acc r.txPubKey o).map Prod.snd).getD 0
  | .error _ => []

/-- Transactions bring key images no input had before, one after the other. -/
def Unused (we : WalletEnv) (acc : AccountBase) : (seen : List KeyImage) → List Transaction → Prop
  | _, [] => True
  | seen, tx :: rest => (∀ k ∈ txImages we acc tx, k ∉ seen) ∧
      Unused we acc (seen ++ inputImages tx.vin) rest

/-- By the elements one has: a bounded quantifier is slow to compute with. -/
def decidableNone (ks seen : List KeyImage) : Decidable (∀ k ∈ ks, k ∉ seen) :=
  decidable_of_iff ((ks.all fun k => !seen.contains k) = true) (by simp)

/-- The condition can be computed. -/
instance decidableUnused (we : WalletEnv) (acc : AccountBase) :
    ∀ (seen : List KeyImage) (txs : List Transaction), Decidable (Unused we acc seen txs)
  | _, [] => instDecidableTrue
  | seen, tx :: rest =>
    have := decidableNone (txImages we acc tx) seen
    have := decidableUnused we acc (seen ++ inputImages tx.vin) rest
    inferInstanceAs (Decidable ((∀ k ∈ txImages we acc tx, k ∉ seen) ∧
      Unused we acc (seen ++ inputImages tx.vin) rest))

theorem unused_cons {we : WalletEnv} {acc : AccountBase} {seen : List KeyImage} {tx : Transaction}
    {rest : List Transaction} : Unused we acc seen (tx :: rest) ↔
      (∀ k ∈ txImages we acc tx, k ∉ seen) ∧ Unused we acc (seen ++ inputImages tx.vin) rest :=
  Iff.rfl

-- a block's transactions are not to be computed to see what `Unused` says of them
attribute [irreducible] Unused

/-- One output for a key image, and none of those that count as unspent has a key
image among `seen`. -/
structure Wallet2.Countable (seen : List KeyImage) (w : Wallet2) : Prop where
  exact : w.Exact
  unspent : ∀ td ∈ w.mTransfers, td.mSpent = false → td.mKeyImage ∉ seen

/-- A transfer that is unspent after the marking was unspent before and is not listed. -/
theorem spendIf_unspent {ks : List KeyImage} {td : TransferDetails}
    (h : (td.spendIf ks).mSpent = false) : td.mSpent = false ∧ td.mKeyImage ∉ ks := by
  unfold TransferDetails.spendIf at h
  by_cases hk : td.mKeyImage ∈ ks
  · rw [if_pos hk] at h
    cases h
  · rw [if_neg hk] at h
    exact ⟨h, hk⟩

theorem spendIf_cases (ks : List KeyImage) (td : TransferDetails) :
    td.spendIf ks = td ∨ td.spendIf ks = td.spend := by
  unfold TransferDetails.spendIf
  by_cases hk : td.mKeyImage ∈ ks
  · exact .inr (if_pos hk)
  · exact .inl (if_neg hk)

/-- The key image of an output is the one its transaction's key gives. -/
def TransferDetails.Derived (we : WalletEnv) (acc : AccountBase) (td : TransferDetails) : Prop :=
  ∃ txPubKey key, getTxPubKeyFromExtra we.env td.mTx = .ok txPubKey ∧
    we.img.generateKeyImageHelper acc txPubKey td.mInternalOutputIndex = some (key, td.mKeyImage)

/-- What the transactions read do to a wallet: they are pending no more, old
outputs may be spent, new ones are the account's. -/
structure Wallet2.Took (we : WalletEnv) (txs : List Transaction) (w w' : Wallet2) : Prop where
  account : w'.mAccount = w.mAccount
  pending : ∀ id, w'.mUnconfirmedTxs[id]? =
    if id ∈ txs.map (getTransactionHash we.env) then none else w.mUnconfirmedTxs[id]?
  transfers : ∀ td' ∈ w'.mTransfers, (∃ td ∈ w.mTransfers, td' = td ∨ td' = td.spend) ∨
    td'.Derived we w.mAccount ∧ td'.mKeyImage ∈ txs.flatMap (txImages we w.mAccount)

section

variable {we : WalletEnv} {tx : Transaction} {height : Nat} {b : Block} {w w' : Wallet2}
  {seen : List KeyImage}

theorem Wallet2.Took.refl (w : Wallet2) : Wallet2.Took we [] w w where
  account := rfl
  pending _ := (if_neg List.not_mem_nil).symm
  transfers td htd := .inl ⟨td, htd, .inl rfl⟩

/-- Transactions in two parts. -/
theorem Wallet2.Took.trans {txs txs' : List Transaction} {w'' : Wallet2}
    (h : Wallet2.Took we txs w w') (h' : Wallet2.Took we txs' w' w'') :
    Wallet2.Took we (txs ++ txs') w w'' := by
  refine ⟨h'.account.trans h.account, ?_, ?_⟩
  · intro id
    rw [h'.pending, h.pending, List.map_append]
    by_cases hid : id ∈ txs'.map (getTransactionHash we.env)
    · rw [if_pos hid, if_pos (List.mem_append_right _ hid)]
    · rw [if_neg hid]
      by_cases hid' : id ∈ txs.map (getTransactionHash we.env)
      · rw [if_pos hid', if_pos (List.mem_append_left _ hid')]
      · rw [if_neg hid', if_neg (by rw [List.mem_append]; tauto)]
  · intro td'' htd''
    rw [List.flatMap_append]
    rcases h'.transfers td'' htd'' with ⟨td', htd', hsame⟩ | ⟨hderived, hk⟩
    · -- spent or not, the output is the one of before
      have hfields : td''.mTx = td'.mTx ∧ td''.mInternalOutputIndex = td'.mInternalOutputIndex ∧
          td''.mKeyImage = td'.mKeyImage := by
        rcases hsame with rfl | rfl
        · exact ⟨rfl, rfl, rfl⟩
        · exact ⟨rfl, rfl, rfl⟩
      rcases h.transfers td' htd' with ⟨td, htd, hold⟩ | ⟨hderived, hk⟩
      · refine .inl ⟨td, htd, ?_⟩
        rcases hold with rfl | rfl
        · exact hsame
        · refine .inr ?_
          rcases hsame with rfl | rfl
          · rfl
          · rfl
      · refine .inr ⟨?_, ?_⟩
        · unfold TransferDetails.Derived at hderived ⊢
          rw [hfields.1, hfields.2.1, hfields.2.2]
          exact hderived
        · rw [hfields.2.2]
          exact List.mem_append_left _ hk
    · rw [h.account] at hderived hk
      exact .inr ⟨hderived, List.mem_append_right _ hk⟩

/-- Spending leaves how the key image was derived. -/
theorem spendIf_derived {acc : AccountBase} {ks : List KeyImage} {td : TransferDetails}
    (h : td.Derived we acc) : (td.spendIf ks).Derived we acc := by
  rcases spendIf_cases ks td with hsame | hspent
  · rw [hsame]
    exact h
  · rw [hspent]
    exact h

/-- The key images of the new transfers were derived by the account. -/
theorem newTransfers_derived {acc : AccountBase} {r : TxReading} (hread : readTx we acc tx = .ok r)
    (hfound : ∀ o ∈ r.outs, (we.img.generateKeyImageHelper acc r.txPubKey o).isSome = true) :
    ∀ td ∈ newTransfers we acc tx height r, td.Derived we acc := by
  intro td htd
  obtain ⟨o, ho, rfl⟩ := List.mem_map.1 htd
  obtain ⟨⟨key, image⟩, himage⟩ := Option.isSome_iff_exists.1 (hfound o ho)
  obtain ⟨found, hlook, -, hkey, -⟩ := readTx_found hread
  refine ⟨r.txPubKey, key, ?_, ?_⟩
  · unfold lookupTx at hlook
    show getTxPubKeyFromExtra we.env tx = _
    unfold getTxPubKeyFromExtra
    split at hlook
    · cases hlook
    · cases hlook
    · next info hparse =>
      rw [hparse]
      split at hlook
      · cases hlook
      · cases hlook
        exact congrArg Except.ok hkey
  · show we.img.generateKeyImageHelper acc r.txPubKey o = _
    unfold newTransfer
    rw [himage]
    rfl

theorem newTransfers_images {acc : AccountBase} {r : TxReading} (height : Nat)
    (hread : readTx we acc tx = .ok r) :
    (newTransfers we acc tx height r).map TransferDetails.mKeyImage = txImages we acc tx := by
  unfold newTransfers txImages
  rw [hread, List.map_map]
  rfl

/-- One transaction with new key images. -/
theorem Wallet2.Countable.processNewTransaction (h : w.Countable seen)
    (hfresh : (w.images ++ txImages we w.mAccount tx).Nodup)
    (hunused : ∀ k ∈ txImages we w.mAccount tx, k ∉ seen)
    (hrun : processNewTransaction we tx height b w = .ok () w') :
    w'.Countable (seen ++ inputImages tx.vin) ∧ w'.images = w.images ++ txImages we w.mAccount tx ∧
      Wallet2.Took we [tx] w w' := by
  obtain ⟨r, hread, hderived, hw'⟩ := processNewTransaction_ok h.exact.indexed hrun
  have himages := newTransfers_images height hread
  obtain ⟨hexact, htransfers⟩ := scanTx_exact b h.exact
    (by rw [himages]; exact hfresh)
  have htds : w'.mTransfers = (w.mTransfers ++ newTransfers we w.mAccount tx height r).map
      (TransferDetails.spendIf (inputImages tx.vin)) := by
    rw [hw']
    exact htransfers
  refine ⟨⟨?_, ?_⟩, ?_, ⟨?_, ?_, ?_⟩⟩
  · rw [hw']
    exact hexact
  · intro td htd hspent
    rw [htds] at htd
    obtain ⟨td', htd', rfl⟩ := List.mem_map.1 htd
    obtain ⟨hspent', hnot⟩ := spendIf_unspent hspent
    rw [spendIf_mKeyImage, List.mem_append]
    rintro (hseen | hinput)
    · rcases List.mem_append.1 htd' with hold | hnew
      · exact h.unspent td' hold hspent' hseen
      · exact hunused _ (himages ▸ List.mem_map_of_mem hnew) hseen
    · exact hnot hinput
  · unfold Wallet2.images
    rw [htds, map_spendIf_images, List.map_append, himages]
  · rw [hw']
    show (scanTx we tx height b r w).mAccount = _
    exact scanTx_mAccount
  · intro id
    rw [hw']
    show (scanTx we tx height b r w).mUnconfirmedTxs[id]? = _
    rw [scanTx_mUnconfirmedTxs, List.map_singleton]
    by_cases hid : id = getTransactionHash we.env tx
    · rw [hid, Std.ExtTreeMap.getElem?_erase_self, if_pos (List.mem_singleton_self _)]
    · rw [FinMap.getElem?_erase_ne hid, if_neg (by rwa [List.mem_singleton])]
  · intro td htd
    rw [htds] at htd
    obtain ⟨td', htd', rfl⟩ := List.mem_map.1 htd
    rcases List.mem_append.1 htd' with hold | hnew
    · exact .inl ⟨td', hold, spendIf_cases _ td'⟩
    · refine .inr ⟨spendIf_derived (newTransfers_derived hread hderived td' hnew), ?_⟩
      rw [spendIf_mKeyImage, List.flatMap_singleton, ← himages]
      exact List.mem_map_of_mem hnew

/-- The transactions of a block, one after the other. -/
theorem Wallet2.Countable.processParsed {txs : List (Option Transaction)}
    (h : w.Countable seen)
    (hfresh : (w.images ++ (txs.filterMap id).flatMap (txImages we w.mAccount)).Nodup)
    (hunused : Unused we w.mAccount seen (txs.filterMap id))
    (hrun : processParsed we height b txs w = .ok () w') :
    w'.Countable (seen ++ (txs.filterMap id).flatMap fun tx => inputImages tx.vin) ∧
      Wallet2.Took we (txs.filterMap id) w w' := by
  induction txs generalizing w seen with
  | nil =>
    cases hrun
    rw [List.filterMap_nil, List.flatMap_nil, List.append_nil]
    exact ⟨h, .refl _⟩
  | cons t rest ih =>
    cases t with
    | none => cases hrun
    | some tx =>
      rw [processParsed_cons] at hrun
      obtain ⟨_, v, hv, hrest⟩ := bind_eq_ok.1 hrun
      have hcons : (some tx :: rest).filterMap id = tx :: rest.filterMap id := rfl
      rw [hcons] at hfresh hunused ⊢
      rw [List.flatMap_cons, ← List.append_assoc] at hfresh
      obtain ⟨hcount, himages, htook⟩ := h.processNewTransaction (List.nodup_append.1 hfresh).1
        (unused_cons.1 hunused).1 hv
      obtain ⟨hcount', htook'⟩ := ih hcount
        (by rw [htook.account, himages]; exact hfresh)
        (by rw [htook.account]; exact (unused_cons.1 hunused).2) hrest
      refine ⟨?_, htook.trans htook'⟩
      rw [List.flatMap_cons, ← List.append_assoc]
      exact hcount'

/-- A block that was read brings key images that are new. -/
structure NewImages (we : WalletEnv) (w : Wallet2) (seen : List KeyImage) (s : ServedBlock) :
    Prop where
  distinct : (w.images ++ (s.scanned we.env w.mAccount).flatMap
    (txImages (we.serving s) w.mAccount)).Nodup
  unused : Unused (we.serving s) w.mAccount seen (s.scanned we.env w.mAccount)

/-- A block keeps the count right: what it pays is new, and what it spends is spent. -/
theorem Wallet2.Countable.processNewBlockchainEntry {s : ServedBlock} (h : w.Countable seen)
    (hnew : NewImages we w seen s)
    (hrun : processNewBlockchainEntry (we.serving s) s.b s.txs s.blId height w = .ok () w') :
    w'.Countable (seen ++ s.spends we w.mAccount) ∧
      Wallet2.Took (we.serving s) (s.scanned we.env w.mAccount) w w' := by
  obtain ⟨hfresh, hunused⟩ := hnew
  unfold ServedBlock.spends
  unfold ServedBlock.scanned at hfresh hunused ⊢
  by_cases hheight : height = w.mBlockchain.length
  · by_cases hrecent : recentEnough w.mAccount s.b = true
    · rw [if_pos hrecent] at hfresh hunused ⊢
      cases hparsed : DarknetSpace.processParsed (we.serving s) height s.b
          (entryTxs we.env s.b s.txs) w with
      | error ex v =>
        rw [processNewBlockchainEntry_broken _ hheight hrecent hparsed] at hrun
        cases hrun
      | ok _ v =>
        rw [processNewBlockchainEntry_through hheight hrecent hparsed] at hrun
        cases hrun
        obtain ⟨⟨hexact, hunspent⟩, haccount, hpending, htransfers⟩ :=
          h.processParsed hfresh hunused hparsed
        exact ⟨⟨hexact, hunspent⟩, haccount, hpending, htransfers⟩
    · rw [if_neg hrecent, List.flatMap_nil, List.append_nil]
      rw [processNewBlockchainEntry_old hheight hrecent] at hrun
      cases hrun
      have hsame : Wallet2.Took (we.serving s) [] w w := .refl w
      obtain ⟨haccount, hpending, htransfers⟩ := hsame
      exact ⟨⟨h.exact, h.unspent⟩, haccount, hpending, htransfers⟩
  · rw [processNewBlockchainEntry_misplaced hheight] at hrun
    cases hrun

end

/-! ## Sending and taking back -/

/-- The selected outputs are spent, the others are as they were. -/
theorem getElem?_foldl_spend (selected : List Nat) (tds : List TransferDetails) (i : Nat) :
    (selected.foldl (fun tds i => tds.modify i TransferDetails.spend) tds)[i]? =
      tds[i]?.map fun td => if i ∈ selected then td.spend else td := by
  induction selected generalizing tds with
  | nil =>
    simp only [List.foldl_nil, List.not_mem_nil, if_false]
    exact Option.map_id'.symm
  | cons j rest ih =>
    rw [List.foldl_cons, ih, List.getElem?_modify]
    cases tds[i]? with
    | none => rfl
    | some td =>
      by_cases hj : j = i
      · by_cases hi : i ∈ rest
        · simp [hj, hi, TransferDetails.spend]
        · simp [hj, hi]
      · by_cases hi : i ∈ rest
        · simp [hj, hi]
        · simp [hj, hi, Ne.symm hj]

/-- Spending the selected transfers leaves their key images. -/
theorem foldl_spend_images (selected : List Nat) (tds : List TransferDetails) :
    (selected.foldl (fun tds i => tds.modify i TransferDetails.spend) tds).map
      TransferDetails.mKeyImage = tds.map TransferDetails.mKeyImage := by
  apply List.ext_getElem?
  intro i
  rw [List.getElem?_map, List.getElem?_map, getElem?_foldl_spend, Option.map_map]
  cases tds[i]? with
  | none => rfl
  | some td =>
    show some _ = some _
    by_cases hi : i ∈ selected
    · simp [hi, TransferDetails.spend]
    · simp [hi]

/-! ## The inputs of a transfer -/

/-- A source of a transaction has the output of its transfer as the real one. -/
theorem makeSource_ok {env : Env} {fakeOutputsCount : Nat} {td : TransferDetails}
    {outs : List OutEntry} {src : TxSourceEntry}
    (h : makeSource env fakeOutputsCount td outs = .ok src) :
    getTxPubKeyFromExtra env td.mTx = .ok src.realOutTxKey ∧
      src.realOutputInTxIndex = td.mInternalOutputIndex := by
  unfold makeSource at h
  cases hout : td.mTx.vout[td.mInternalOutputIndex]? with
  | none =>
    rw [hout] at h
    cases h
  | some out =>
    obtain ⟨amount, target⟩ := out
    rw [hout] at h
    cases target with
    | toScript _ _ | toScripthash _ => cases h
    | toKey key mixAttr =>
      simp only at h
      cases hkey : getTxPubKeyFromExtra env td.mTx with
      | error ex =>
        rw [hkey] at h
        cases h
      | ok realOutTxKey =>
        rw [hkey] at h
        cases h
        exact ⟨rfl, rfl⟩

/-- An input that was built has the key image of its source. -/
theorem constructInput_image {img : ImageDerivation} {acc : AccountBase} {src : TxSourceEntry}
    {x : Txin} (h : constructInput img acc src = some x) :
    ∃ amount offsets pub image,
      img.generateKeyImageHelper acc src.realOutTxKey src.realOutputInTxIndex = some (pub, image) ∧
        x = .toKey amount offsets image := by
  unfold constructInput at h
  split at h
  · cases h
  · split at h
    · cases h
    · next pub image himage =>
      split at h
      · cases h
      · cases h
        exact ⟨_, _, pub, image, himage, rfl⟩

/-- The inputs carry the key images of the outputs they were made from. -/
theorem constructInputs_images {we : WalletEnv} {acc : AccountBase} {fakeOutputsCount : Nat}
    {tds : List TransferDetails} {outs : List (List OutEntry)} {sources : List TxSourceEntry}
    {vin : List Txin} (hderived : ∀ td ∈ tds, td.Derived we acc)
    (hsources : makeSources we.env fakeOutputsCount tds outs = .ok sources)
    (hvin : constructInputs we.img acc sources = some vin) :
    inputImages vin = tds.map TransferDetails.mKeyImage := by
  induction tds generalizing outs sources vin with
  | nil =>
    cases hsources
    cases hvin
    rfl
  | cons td rest ih =>
    unfold makeSources at hsources
    obtain ⟨src, hsrc, hsources⟩ := bind_eq_ok_except.1 hsources
    obtain ⟨srcs, hsrcs, hsources⟩ := bind_eq_ok_except.1 hsources
    cases hsources
    unfold constructInputs at hvin
    split at hvin
    · next x xs hx hxs =>
      cases hvin
      obtain ⟨txPubKey, key, hkey, himage⟩ := hderived td List.mem_cons_self
      obtain ⟨hsrcKey, hindex⟩ := makeSource_ok hsrc
      rw [hkey] at hsrcKey
      cases hsrcKey
      obtain ⟨amount, offsets, pub, image, himage', rfl⟩ := constructInput_image hx
      rw [hindex, himage] at himage'
      cases himage'
      have hrest := ih (fun td' htd' => hderived td' (List.mem_cons_of_mem _ htd')) hsrcs hxs
      show td.mKeyImage :: inputImages xs = _
      rw [hrest, List.map_cons]
    · cases hvin

/-- The inputs of a transaction that was built are those of its sources. -/
theorem constructTx_vin {te : TransferEnv} {acc : AccountBase} {sources : List TxSourceEntry}
    {des : List TxDestinationEntry} {extra : Blob} {unlockTime : UInt64} {tx : Transaction}
    (h : constructTx te acc sources des extra unlockTime = some tx) :
    constructInputs te.we.img acc sources = some tx.vin := by
  unfold constructTx at h
  split at h
  · cases h
  · next vin hvin =>
    split at h
    · cases h
    · split at h
      · cases h
      · cases h
        exact hvin

/-- A transfer spends outputs that are unspent, and names them in its inputs. -/
theorem buildTransfer_selects {te : TransferEnv} {o : TransferOrder} {w : Wallet2}
    {built : BuiltTransfer} (h : buildTransfer te o w = .ok built)
    (hderived : ∀ td ∈ w.mTransfers, td.Derived te.we w.mAccount) :
    (∀ i ∈ built.selected, ∃ td, w.mTransfers[i]? = some td ∧ td.mSpent = false) ∧
      inputImages built.tx.vin = (built.selected.filterMap fun i => w.mTransfers[i]?).map
        TransferDetails.mKeyImage := by
  obtain ⟨outs, sources, entries, -, hfound, henough, -, hsources, -, -, htx⟩ :=
    buildTransfer_eq_ok.1 h
  obtain ⟨chosen, hsel, -, -, hchosen⟩ := selectTransfers_chosen hfound henough
  refine ⟨?_, ?_⟩
  · intro i hi
    rw [show built.selected = chosen.map Prod.snd from hsel] at hi
    obtain ⟨p, hp, rfl⟩ := List.mem_map.1 hi
    obtain ⟨td, htd, hspent, -⟩ := hchosen p hp
    exact ⟨td, htd, hspent⟩
  · refine constructInputs_images (fun td htd => ?_) hsources (constructTx_vin htx)
    obtain ⟨i, -, hi⟩ := List.mem_filterMap.1 htd
    exact hderived td (List.mem_of_getElem? hi)

/-! ## Everything a wallet goes through -/

/-- A wallet with the key images its blocks spent, block by block. -/
structure Journal where
  wallet : Wallet2
  spent : List (List KeyImage)

/-- A wallet as made, with nothing read. -/
def Journal.fresh (acc : AccountBase) (genesisId : Hash) : Journal :=
  ⟨.fresh acc genesisId, [[]]⟩

/-- What happens to a wallet. -/
inductive WalletEvent where
  | block (s : ServedBlock)
  | detach (height : Nat)
  | send (te : TransferEnv) (o : TransferOrder)
  | cancel (txid : Blob)

/-- The wallet after an event; one that throws is no step. -/
def walletStep (we : WalletEnv) (e : WalletEvent) (j : Journal) : Option Journal :=
  match e with
  | .block s =>
    match processNewBlockchainEntry (we.serving s) s.b s.txs s.blId j.wallet.mBlockchain.length
        j.wallet with
    | .ok _ w => some ⟨w, j.spent ++ [s.spends we j.wallet.mAccount]⟩
    | .error _ _ => none
  | .detach height =>
    match detachBlockchain height j.wallet with
    | .ok _ w => some ⟨w, j.spent.take height⟩
    | .error _ _ => none
  | .send te o =>
    match transfer { te with we } o j.wallet with
    | .ok _ w => some { j with wallet := w }
    | .error _ _ => none
  | .cancel txid =>
    match deleteUnconfirmedTx txid j.wallet with
    | .ok _ w => some { j with wallet := w }
    | .error _ _ => none

/-- Every block brings key images that are new, and nothing is given up that a
block has spent. -/
def KeepsCount (we : WalletEnv) (e : WalletEvent) (j : Journal) : Prop :=
  match e with
  | .block s => NewImages we j.wallet j.spent.flatten s
  | .cancel txid => ∀ e ∈ j.wallet.mUnconfirmedTxs.toList, Names txid e.1 →
      ∀ k ∈ inputImages e.2.mTx.vin, k ∉ j.spent.flatten
  | .detach _ | .send _ _ => True

/-- Each unspent output counts once and is found by its key image, no block has
spent it, and blocks can be taken back. -/
structure Wallet2.CountsOnce (seen : List KeyImage) (w : Wallet2) : Prop where
  distinct : ((w.mTransfers.filter fun td => ¬ td.mSpent).map TransferDetails.mKeyImage).Nodup
  unspent : ∀ td ∈ w.mTransfers, td.mSpent = false → td.mKeyImage ∉ seen
  found : ∀ (i : Nat) (td : TransferDetails), w.mTransfers[i]? = some td → td.mSpent = false →
    w.mKeyImages[td.mKeyImage]? = some i
  detaches : ∀ height ≤ w.mBlockchain.length, ∃ w', detachBlockchain height w = .ok () w'

section

variable {we : WalletEnv} {w w' : Wallet2} {seen : List KeyImage}

theorem Wallet2.Countable.countsOnce (h : w.Countable seen) : w.CountsOnce seen where
  distinct := (List.filter_sublist.map TransferDetails.mKeyImage).nodup h.exact.nodup
  unspent := h.unspent
  found i td htd _ := (h.exact _ i).2 ⟨td, htd, rfl⟩
  detaches _ hle := ⟨_, detachBlockchain_eq h.exact hle⟩

/-- A wallet whose unspent transfers were there before. -/
theorem Wallet2.Countable.of_unspent {seen' : List KeyImage} (h : w.Countable seen)
    (hexact : w'.Exact) (hseen : seen' ⊆ seen)
    (hold : ∀ td ∈ w'.mTransfers, td.mSpent = false →
      ∃ td' ∈ w.mTransfers, td'.mSpent = false ∧ td'.mKeyImage = td.mKeyImage) :
    w'.Countable seen' := by
  refine ⟨hexact, ?_⟩
  intro td htd hspent hk
  obtain ⟨td', htd', hspent', himage⟩ := hold td htd hspent
  exact h.unspent td' htd' hspent' (himage ▸ hseen hk)

/-- A detach that succeeded was within the chain. -/
theorem detachBlockchain_le {height : Nat} (h : detachBlockchain height w = .ok () w') :
    height ≤ w.mBlockchain.length := by
  by_contra hlt
  unfold detachBlockchain at h
  rw [bind_of_ok (get_apply w)] at h
  obtain ⟨_, v, hv, hrest⟩ := bind_eq_ok.1 h
  rw [if_pos (by omega)] at hrest
  cases hrest

/-- A detach takes transfers away; the ones that are left keep their flags. -/
theorem Wallet2.Countable.detach {height : Nat} {spent : List (List KeyImage)}
    (h : w.Countable spent.flatten) (hrun : detachBlockchain height w = .ok () w') :
    w'.Countable (spent.take height).flatten := by
  rw [detachBlockchain_eq h.exact (detachBlockchain_le hrun)] at hrun
  cases hrun
  refine h.of_unspent (cut_exact h.exact) ?_ ?_
  · intro k hk
    obtain ⟨ks, hks, hk⟩ := List.mem_flatten.1 hk
    exact List.mem_flatten.2 ⟨ks, List.mem_of_mem_take hks, hk⟩
  · intro td htd hspent
    exact ⟨td, (List.takeWhile_sublist _).mem htd, hspent, rfl⟩

/-- Sending marks transfers spent. -/
theorem Wallet2.Countable.send {te : TransferEnv} {o : TransferOrder} {tx : Transaction}
    (h : w.Countable seen) (hrun : transfer te o w = .ok tx w') : w'.Countable seen := by
  obtain ⟨built, -, -, rfl⟩ := transfer_built hrun
  refine h.of_unspent (h.exact.of_same rfl (foldl_spend_images built.selected w.mTransfers))
    (List.Subset.refl seen) ?_
  intro td htd hspent
  obtain ⟨i, hi⟩ := List.mem_iff_getElem?.1 htd
  have hget := getElem?_foldl_spend built.selected w.mTransfers i
  obtain ⟨td', htd', hsame⟩ := Option.map_eq_some_iff.1 (hget.symm.trans hi)
  refine ⟨td', List.mem_of_getElem? htd', ?_⟩
  by_cases hsel : i ∈ built.selected
  · rw [if_pos hsel] at hsame
    rw [← hsame] at hspent
    cases hspent
  · rw [if_neg hsel] at hsame
    rw [hsame]
    exact ⟨hspent, rfl⟩

/-- A transfer that is unspent after a recharge was unspent before or is recharged. -/
theorem rechargeIf_unspent {ks : List KeyImage} {td : TransferDetails}
    (h : (td.rechargeIf ks).mSpent = false) : td.mSpent = false ∨ td.mKeyImage ∈ ks := by
  unfold TransferDetails.rechargeIf at h
  by_cases hk : td.mKeyImage ∈ ks
  · exact .inr hk
  · rw [if_neg hk] at h
    exact .inl h

/-- Giving up a pending transaction recharges its transfers; their key images must not be on the
chain. -/
theorem Wallet2.Countable.givesUp {txid : Blob}
    {entries : List (Hash × UnconfirmedTransferDetails)} (h : w.Countable seen)
    (hgive : w.GivesUp txid entries w')
    (hunspent : ∀ e ∈ entries, ∀ k ∈ inputImages e.2.mTx.vin, k ∉ seen) : w'.Countable seen := by
  have himages : w'.images = w.images := by
    unfold Wallet2.images
    rw [hgive.transfers, List.map_map]
    exact List.map_congr_left fun td _ => rechargeIf_mKeyImage _ td
  refine ⟨h.exact.of_same hgive.images himages, ?_⟩
  intro td htd hspent
  rw [hgive.transfers] at htd
  obtain ⟨td', htd', rfl⟩ := List.mem_map.1 htd
  rw [rechargeIf_mKeyImage]
  rcases rechargeIf_unspent hspent with hold | hk
  · exact h.unspent td' htd' hold
  · obtain ⟨e, he, hk⟩ := List.mem_flatMap.1 hk
    exact hunspent e he _ hk

/-- One event under the condition. -/
theorem walletStep_countable {e : WalletEvent} {j j' : Journal}
    (h : j.wallet.Countable j.spent.flatten) (hkeeps : KeepsCount we e j)
    (hstep : walletStep we e j = some j') : j'.wallet.Countable j'.spent.flatten := by
  cases e with
  | block s =>
    unfold walletStep at hstep
    simp only at hstep
    split at hstep
    · next w hread =>
      cases hstep
      rw [List.flatten_concat]
      exact (h.processNewBlockchainEntry hkeeps hread).1
    · cases hstep
  | detach height =>
    unfold walletStep at hstep
    simp only at hstep
    split at hstep
    · next w hcut =>
      cases hstep
      exact h.detach hcut
    · cases hstep
  | send te o =>
    unfold walletStep at hstep
    simp only at hstep
    split at hstep
    · next w hsent =>
      cases hstep
      exact h.send hsent
    · cases hstep
  | cancel txid =>
    unfold walletStep at hstep
    simp only at hstep
    obtain ⟨found, w', entries, hdelete, hgive, -⟩ :=
      deleteUnconfirmedTx_givesUp h.exact txid
    rw [hdelete] at hstep
    cases hstep
    refine h.givesUp hgive fun e he => ?_
    obtain ⟨hpending, hnames⟩ := hgive.pending e he
    exact hkeeps e (Std.ExtTreeMap.mem_toList_iff_getElem?_eq_some.2 hpending) hnames

theorem fresh_countable (we : WalletEnv) (acc : AccountBase) (g : Hash) (seen : List KeyImage) :
    (Wallet2.fresh acc g).Countable seen where
  exact := (fresh_tidy we acc g).exact
  unspent := nofun

end

/-- As long as the blocks bring key images that are new, a wallet counts every
output it can spend once, whatever it sends and takes back. -/
theorem counts_once_while_new {we : WalletEnv} {acc : AccountBase} {g : Hash}
    {es : List WalletEvent} {j : Journal}
    (hmeets : Runs.Meets (walletStep we) (KeepsCount we) es (.fresh acc g))
    (hrun : Runs.run (walletStep we) es (.fresh acc g) = some j) :
    j.wallet.CountsOnce j.spent.flatten := by
  have hcount : j.wallet.Countable j.spent.flatten :=
    Runs.run_keeps (I := fun j : Journal => j.wallet.Countable j.spent.flatten)
      (fun _ _ _ => walletStep_countable) (fresh_countable we acc g _) hmeets hrun
  exact hcount.countsOnce

/-! ## A purse that lives -/

instance (we : WalletEnv) (w : Wallet2) (seen : List KeyImage) (s : ServedBlock) :
    Decidable (NewImages we w seen s) :=
  decidable_of_iff ((w.images ++ (s.scanned we.env w.mAccount).flatMap
      (txImages (we.serving s) w.mAccount)).Nodup ∧
    Unused (we.serving s) w.mAccount seen (s.scanned we.env w.mAccount))
    ⟨fun h => ⟨h.1, h.2⟩, fun h => ⟨h.distinct, h.unused⟩⟩

instance (we : WalletEnv) : ∀ (e : WalletEvent) (j : Journal), Decidable (KeepsCount we e j)
  | .block s, j => inferInstanceAs (Decidable (NewImages we j.wallet j.spent.flatten s))
  | .cancel txid, j =>
    decidable_of_iff ((j.wallet.mUnconfirmedTxs.toList.all fun e => decide (Names txid e.1 →
      ((inputImages e.2.mTx.vin).all fun k => !j.spent.flatten.contains k) = true)) = true) (by
      show _ ↔ ∀ e ∈ j.wallet.mUnconfirmedTxs.toList, Names txid e.1 →
        ∀ k ∈ inputImages e.2.mTx.vin, k ∉ j.spent.flatten
      simp only [List.all_eq_true, decide_eq_true_eq, Bool.not_eq_true', List.contains_eq_mem,
        decide_eq_false_iff_not])
  | .detach _, _ | .send _ _, _ => instDecidableTrue

namespace Devnet

/-- A second payment under the transaction key of the first. -/
def payAgainBlock : ServedBlock := ⟨mainBlock 2, [[8, 1, 0, 1]], 3, answering⟩

/-- Blocks with nothing of the purse's, from a height on. -/
def emptyBlocks (height count : Nat) : List WalletEvent :=
  (List.range' height count).map fun n => .block ⟨mainBlock n, [], BitVec.ofNat 256 (n + 1), answering⟩

/-- Paid, and after ten more blocks one sends some of the money on. -/
def sendsOn : List WalletEvent :=
  .block payBlock :: emptyBlocks 2 10 ++ [.send transferEnv (order 1300000000005)]

/-- The journal of a run of the sample wallet. -/
def lives (es : List WalletEvent) : Option Journal :=
  Runs.run (walletStep (walletEnv answering)) es (.fresh purse 1)

/-- The journal, where the run went through. -/
def lived (es : List WalletEvent) : Journal := (lives es).getD (.fresh purse 1)

theorem lives_eq {es : List WalletEvent} (h : (lives es).isSome = true) :
    Runs.run (walletStep (walletEnv answering)) es (.fresh purse 1) = some (lived es) := by
  obtain ⟨j, hj⟩ := Option.isSome_iff_exists.1 h
  unfold lived
  rw [hj]
  exact hj

end Devnet

/-- Paid, sent on, taken back and paid nothing more. -/
theorem counts_once_while_new_devnet :
    (Devnet.lived (Devnet.sendsOn ++ [.detach 2, .block Devnet.emptyBlock])).wallet.CountsOnce
      (Devnet.lived (Devnet.sendsOn ++ [.detach 2, .block Devnet.emptyBlock])).spent.flatten :=
  have eval :
      (Devnet.lives (Devnet.sendsOn ++ [.detach 2, .block Devnet.emptyBlock])).isSome = true ∧
      Runs.Meets (walletStep (Devnet.walletEnv Devnet.answering))
        (KeepsCount (Devnet.walletEnv Devnet.answering))
        (Devnet.sendsOn ++ [.detach 2, .block Devnet.emptyBlock]) (.fresh Devnet.purse 1) := by
    decide +kernel
  counts_once_while_new eval.2 (Devnet.lives_eq eval.1)

/-- Two payments under one transaction key: the wallet counts both outputs, though
one key image can spend only one, and cannot take the blocks back. -/
theorem counts_twice :
    ∃ j, Runs.run (walletStep (Devnet.walletEnv Devnet.answering))
        [.block Devnet.payBlock, .block Devnet.payAgainBlock] (.fresh Devnet.purse 1) = some j ∧
      ¬ j.wallet.CountsOnce j.spent.flatten ∧
      ∃ ex w', detachBlockchain 1 j.wallet = .error ex w' := by
  have eval :
      (Devnet.lives [.block Devnet.payBlock, .block Devnet.payAgainBlock]).isSome = true ∧
      ¬ (((Devnet.lived [.block Devnet.payBlock, .block Devnet.payAgainBlock]).wallet.mTransfers.filter
        fun td => ¬ td.mSpent).map TransferDetails.mKeyImage).Nodup ∧
      (match detachBlockchain 1
          (Devnet.lived [.block Devnet.payBlock, .block Devnet.payAgainBlock]).wallet with
        | .ok _ _ => false
        | .error _ _ => true) = true := by
    decide +kernel
  obtain ⟨hlives, htwice, hthrows⟩ := eval
  refine ⟨_, Devnet.lives_eq hlives, fun hcounts => htwice hcounts.distinct, ?_⟩
  cases hdetach : detachBlockchain 1
      (Devnet.lived [.block Devnet.payBlock, .block Devnet.payAgainBlock]).wallet with
  | ok _ w' =>
    rw [hdetach] at hthrows
    cases hthrows
  | error ex w' => exact ⟨ex, w', rfl⟩

end DarknetSpace
