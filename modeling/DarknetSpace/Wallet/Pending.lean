import DarknetSpace.Wallet.Undo

/-!
# A payment on its way

While a payment is pending the wallet counts the whole change as its own
(`m_change`), though the dust of the change has gone to the fee and never comes
back. Once the block with the transaction is read, the change is what its outputs
come to. The two agree, and the payment is reported as what it is, exactly when
the change has no dust.

The run is followed from the transfer to the block that has it, with other blocks in
between that leave the payment alone (`Elsewhere`). What the wallet counts is the money
(`balance`), entry by entry, and what it reports is the history. Main result:
`pending_payment_exact_iff`; the condition is on the change the transfer made, and not
on anything the block brings.
-/

namespace DarknetSpace

open StateExn

/-- The amount and the rest of `wallet_transfer_info_from_unconfirmed_transfer_details`;
the receive and spend indices are empty. -/
def walletTransferInfoFromUnconfirmedTransferDetails (env : Env)
    (u : UnconfirmedTransferDetails) : WalletTransferInfo :=
  let wti := (prepareWti env 0 (UInt64.ofNat u.mSentTime) u.mTx
    (getOutsMoneyAmount u.mTx.toTransactionPrefix - u.mChange) ⟨[], []⟩).1
  { wti with isIncome := false, recipient := u.mRecipient, recipientAlias := u.mRecipientAlias }

/-- The dust of the change a transfer will have. -/
def changeDustOf (now : Nat) (o : TransferOrder) (w : Wallet2) : UInt64 :=
  match computeNeededMoney o with
  | .error _ => 0
  | .ok needed =>
    match selectTransfers now needed o.fakeOutputsCount w with
    | .error _ => 0
    | .ok found => changeDust o.dustPolicy.dustThreshold (makeChange w found.1 needed)

/-! ## Money, entry by entry -/

/-- What an output counts for. -/
def TransferDetails.worth (td : TransferDetails) : UInt64 := if td.mSpent then 0 else td.amount

/-- What the unspent transfers come to, in 64 bits. -/
def worthOf (tds : List TransferDetails) : UInt64 := sumAmounts (tds.map TransferDetails.worth)

/-- The change that is on its way back. -/
def changeOf (pending : Map Hash UnconfirmedTransferDetails) : UInt64 :=
  sumAmounts (pending.values.map UnconfirmedTransferDetails.mChange)

theorem sumAmounts_cons (a : UInt64) (l : List UInt64) : sumAmounts (a :: l) = a + sumAmounts l := rfl

theorem sumAmounts_append (l l' : List UInt64) :
    sumAmounts (l ++ l') = sumAmounts l + sumAmounts l' := by
  induction l with
  | nil => exact (UInt64.zero_add _).symm
  | cons a l ih => rw [List.cons_append, sumAmounts_cons, sumAmounts_cons, ih, UInt64.add_assoc]

/-- The order does not matter. -/
theorem sumAmounts_perm {l l' : List UInt64} (h : l.Perm l') : sumAmounts l = sumAmounts l' := by
  induction h with
  | nil => rfl
  | cons a _ ih => rw [sumAmounts_cons, sumAmounts_cons, ih]
  | swap a b l =>
    rw [sumAmounts_cons, sumAmounts_cons, sumAmounts_cons, sumAmounts_cons, ← UInt64.add_assoc,
      UInt64.add_comm b a, UInt64.add_assoc]
  | trans _ _ ih ih' => exact ih.trans ih'

/-- Spent transfers count as nothing. -/
theorem sumAmounts_unspent (tds : List TransferDetails) :
    sumAmounts ((tds.filter fun td => ¬ td.mSpent).map TransferDetails.amount) = worthOf tds := by
  unfold worthOf
  induction tds with
  | nil => rfl
  | cons td rest ih =>
    rw [List.map_cons, sumAmounts_cons, ← ih]
    cases hspent : td.mSpent with
    | true =>
      rw [List.filter_cons_of_neg (by simp [hspent])]
      unfold TransferDetails.worth
      rw [if_pos hspent, UInt64.zero_add]
    | false =>
      rw [List.filter_cons_of_pos (by simp [hspent]), List.map_cons, sumAmounts_cons]
      unfold TransferDetails.worth
      rw [if_neg (by simp [hspent])]

theorem balance_eq (w : Wallet2) : w.balance = worthOf w.mTransfers + changeOf w.mUnconfirmedTxs := by
  unfold Wallet2.balance changeOf
  rw [sumAmounts_unspent]

theorem worthOf_append (tds tds' : List TransferDetails) :
    worthOf (tds ++ tds') = worthOf tds + worthOf tds' := by
  unfold worthOf
  rw [List.map_append, sumAmounts_append]

/-- Spending an unspent output takes its amount off. -/
theorem worthOf_spend {tds : List TransferDetails} {i : Nat} {td : TransferDetails}
    (htd : tds[i]? = some td) (hspent : td.mSpent = false) :
    worthOf tds = td.amount + worthOf (tds.modify i TransferDetails.spend) := by
  induction tds generalizing i with
  | nil => cases htd
  | cons x rest ih =>
    cases i with
    | zero =>
      cases htd
      show td.worth + worthOf rest = td.amount + (td.spend.worth + worthOf rest)
      have hbefore : td.worth = td.amount := by
        unfold TransferDetails.worth
        rw [hspent]
        rfl
      have hafter : td.spend.worth = 0 := rfl
      rw [hbefore, hafter, UInt64.zero_add]
    | succ i =>
      have hrest := ih (i := i) htd
      show x.worth + worthOf rest = td.amount + (x.worth + worthOf (rest.modify i TransferDetails.spend))
      rw [hrest, ← UInt64.add_assoc, ← UInt64.add_assoc, UInt64.add_comm x.worth]

/-- Spending distinct unspent outputs takes their amounts off. -/
theorem worthOf_foldl_spend {selected : List Nat} {tds : List TransferDetails}
    (hnodup : selected.Nodup)
    (hunspent : ∀ i ∈ selected, ∃ td, tds[i]? = some td ∧ td.mSpent = false) :
    worthOf tds = sumAmounts ((selected.filterMap fun i => tds[i]?).map TransferDetails.amount) +
      worthOf (selected.foldl (fun tds i => tds.modify i TransferDetails.spend) tds) := by
  induction selected generalizing tds with
  | nil => exact (UInt64.zero_add _).symm
  | cons i rest ih =>
    obtain ⟨hnot, hrest⟩ := List.nodup_cons.1 hnodup
    obtain ⟨td, htd, hspent⟩ := hunspent i List.mem_cons_self
    -- the others stand where they stood
    have hothers : ∀ i' ∈ rest, (tds.modify i TransferDetails.spend)[i']? = tds[i']? := by
      intro i' hi'
      have hne : i ≠ i' := by
        rintro rfl
        exact hnot hi'
      rw [List.getElem?_modify]
      cases tds[i']? with
      | none => rfl
      | some td' => simp [hne]
    have hstill : ∀ i' ∈ rest, ∃ td', (tds.modify i TransferDetails.spend)[i']? = some td' ∧
        td'.mSpent = false := by
      intro i' hi'
      rw [hothers i' hi']
      exact hunspent i' (List.mem_cons_of_mem _ hi')
    have hih := ih hrest hstill
    have hsame : (rest.filterMap fun i' => (tds.modify i TransferDetails.spend)[i']?) =
        rest.filterMap fun i' => tds[i']? := List.filterMap_congr hothers
    rw [hsame] at hih
    rw [worthOf_spend htd hspent, hih, List.filterMap_cons, htd, List.map_cons, sumAmounts_cons,
      List.foldl_cons, UInt64.add_assoc]

/-- An entry that is taken out and put in again. -/
theorem insert_erase_self {pending : Map Hash UnconfirmedTransferDetails} {id : Hash}
    {utd : UnconfirmedTransferDetails} (h : pending[id]? = some utd) :
    (pending.erase id).insert id utd = pending := by
  apply Std.ExtTreeMap.ext_getElem?
  intro id'
  by_cases hid : id' = id
  · rw [hid, Std.ExtTreeMap.getElem?_insert_self, h]
  · rw [FinMap.getElem?_insert_ne hid, FinMap.getElem?_erase_ne hid]

theorem changeOf_insert {pending : Map Hash UnconfirmedTransferDetails} {id : Hash}
    (utd : UnconfirmedTransferDetails) (h : pending[id]? = none) :
    changeOf (pending.insert id utd) = utd.mChange + changeOf pending :=
  sumAmounts_perm ((FinMap.values_insert_perm utd h).map UnconfirmedTransferDetails.mChange)

/-! ## What a transfer was built from -/

/-- A transfer in digits whose dust is left to the fee. -/
theorem buildTransfer_change {te : TransferEnv} {o : TransferOrder} {w : Wallet2}
    {built : BuiltTransfer} (hdigits : o.destinationSplitStrategy = digitSplitStrategy)
    (hfee : o.dustPolicy.addToFee = true) (h : buildTransfer te o w = .ok built) :
    built.changeDts.amount.toNat + built.neededMoney.toNat = built.foundMoney.toNat ∧
      built.dust = changeDustOf te.now o w := by
  obtain ⟨outs, sources, entries, hneeded, hfound, henough, -, -, hchange, hsplit, -⟩ :=
    buildTransfer_eq_ok.1 h
  rw [hchange] at hsplit ⊢
  refine ⟨makeChange_amount henough, ?_⟩
  unfold changeDustOf
  simp only [hneeded, hfound]
  unfold splitDestinations at hsplit
  rw [hdigits, hfee] at hsplit
  unfold digitSplitStrategy at hsplit
  simp only at hsplit
  split at hsplit
  · cases hsplit
  · split at hsplit
    · next hkept => exact absurd hkept.2 Bool.noConfusion
    · exact (congrArg Prod.snd (Except.ok.inj hsplit)).symm

/-! ## What the block brings -/

/-- The wallet reads the transaction's own key out of it, and its own outputs are
those to its address. -/
structure Recognised (te : TransferEnv) (acc : AccountBase) (tx : Transaction) : Prop where
  readsKey : getTxPubKeyFromExtra te.we.env tx = .ok (te.kd.pub te.txkey)
  own : ∀ addr i key, te.kd.outKey addr te.txkey i = some key →
    (te.we.env.isOutToAcc acc.keys key (te.kd.pub te.txkey) i = true ↔
      addr = acc.keys.mAccountAddress)

/-- What the entries of an address come to. -/
def entriesFor (addr : AccountPublicAddress) (des : List TxDestinationEntry) : UInt64 :=
  sumAmounts ((des.filter fun de => decide (de.addr = addr)).map TxDestinationEntry.amount)

/-- The first entry is paid by the first output. -/
theorem PaidOut.cons {kd : KeyDerivation} {txkey : SecretKey} {first : Nat}
    {de : TxDestinationEntry} {rest : List TxDestinationEntry} {vout : List TxOut}
    (h : PaidOut kd txkey first (de :: rest) vout) :
    ∃ key vout', kd.outKey de.addr txkey first = some key ∧
      vout = ⟨de.amount, .toKey key 0⟩ :: vout' ∧ PaidOut kd txkey (first + 1) rest vout' := by
  obtain ⟨hamounts, hplaces⟩ := h
  obtain ⟨key, hkey, hout⟩ := hplaces 0 de rfl
  rcases vout with _ | ⟨out, vout'⟩
  · cases hout
  · cases hout
    refine ⟨key, vout', hkey, rfl, (List.cons.inj hamounts).2, ?_⟩
    intro i p hp
    obtain ⟨key', hkey', hout'⟩ := hplaces (i + 1) p hp
    refine ⟨key', ?_, hout'⟩
    rw [← hkey']
    congr 1
    omega

/-- The outputs found are those to the account's address. -/
theorem lookupAccOuts_entriesFor {te : TransferEnv} {acc : AccountBase} {tx : Transaction}
    (hrec : Recognised te acc tx) {first : Nat} {des : List TxDestinationEntry}
    {vout : List TxOut} {outs : List Nat} {got : UInt64}
    (hpaid : PaidOut te.kd te.txkey first des vout)
    (h : lookupAccOuts te.we.env acc.keys (te.kd.pub te.txkey) first vout = some (outs, got)) :
    got = entriesFor acc.keys.mAccountAddress des := by
  induction des generalizing first vout outs got with
  | nil =>
    have hnil : vout = [] := List.map_eq_nil_iff.1 hpaid.1
    subst hnil
    cases h
    rfl
  | cons de rest ih =>
    obtain ⟨key, vout', hkey, rfl, hrest⟩ := hpaid.cons
    obtain ⟨⟨outs', got'⟩, hlook, hout⟩ := Option.map_eq_some_iff.1 h
    have hgot := ih hrest hlook
    unfold entriesFor at hgot ⊢
    simp only at hout
    by_cases hown : de.addr = acc.keys.mAccountAddress
    · rw [if_pos ((hrec.own _ _ _ hkey).2 hown)] at hout
      cases hout
      rw [List.filter_cons_of_pos (by simpa using hown), List.map_cons, sumAmounts_cons, hgot]
    · rw [if_neg fun hmine => hown ((hrec.own _ _ _ hkey).1 hmine)] at hout
      cases hout
      rw [List.filter_cons_of_neg (by simpa using hown), hgot]

/-- What is found is what the outputs found come to. -/
theorem lookupAccOuts_amounts {env : Env} {acc : AccountKeys} {txPubKey : PublicKey} {i : Nat}
    {all vout : List TxOut} {outs : List Nat} {got : UInt64} (hdrop : all.drop i = vout)
    (h : lookupAccOuts env acc txPubKey i vout = some (outs, got)) :
    sumAmounts (outs.map fun o => (all[o]?.map (·.amount)).getD 0) = got := by
  induction vout generalizing i outs got with
  | nil =>
    cases h
    rfl
  | cons out rest ih =>
    obtain ⟨amount, target⟩ := out
    have hrest : all.drop (i + 1) = rest := by
      rw [← List.drop_drop, hdrop]
      rfl
    have hhead : all[i]? = some ⟨amount, target⟩ := by
      rw [← List.head?_drop, hdrop]
      rfl
    cases target with
    | toScript _ _ | toScripthash _ => cases h
    | toKey key attr =>
      obtain ⟨⟨outs', got'⟩, hlook, hout⟩ := Option.map_eq_some_iff.1 h
      have hgot := ih hrest hlook
      simp only at hout
      split at hout
      · cases hout
        rw [List.map_cons, sumAmounts_cons, hgot, hhead]
        rfl
      · cases hout
        exact hgot

/-! ## The other transactions of the block -/

/-- The same money: outputs, their key images and what is pending. -/
structure SameMoney (w w' : Wallet2) : Prop where
  account : w'.mAccount = w.mAccount
  transfers : w'.mTransfers = w.mTransfers
  images : w'.mKeyImages = w.mKeyImages
  pending : w'.mUnconfirmedTxs = w.mUnconfirmedTxs

theorem SameMoney.refl (w : Wallet2) : SameMoney w w := ⟨rfl, rfl, rfl, rfl⟩

theorem SameMoney.trans {w₁ w₂ w₃ : Wallet2} (h : SameMoney w₁ w₂) (h' : SameMoney w₂ w₃) :
    SameMoney w₁ w₃ :=
  ⟨h'.account.trans h.account, h'.transfers.trans h.transfers, h'.images.trans h.images,
    h'.pending.trans h.pending⟩

theorem SameMoney.balance {w w' : Wallet2} (h : SameMoney w w') : w'.balance = w.balance := by
  unfold Wallet2.balance
  rw [h.transfers, h.pending]

theorem SameMoney.indexed {w w' : Wallet2} (h : SameMoney w w') (hi : w.Indexed) : w'.Indexed := by
  unfold Wallet2.Indexed at hi ⊢
  rw [h.images, h.transfers]
  exact hi

/-- The transaction has nothing to do with the wallet: it is not pending, pays
nothing to it, and spends none of its outputs that count. -/
structure Elsewhere (we : WalletEnv) (w : Wallet2) (tx : Transaction) : Prop where
  pending : w.mUnconfirmedTxs[getTransactionHash we.env tx]? = none
  brings : txImages we w.mAccount tx = []
  spends : ∀ td ∈ w.mTransfers, td.mKeyImage ∈ inputImages tx.vin → td.mSpent = true

theorem Elsewhere.of_same {we : WalletEnv} {w w' : Wallet2} {tx : Transaction}
    (h : Elsewhere we w tx) (hsame : SameMoney w w') : Elsewhere we w' tx where
  pending := by rw [hsame.pending]; exact h.pending
  brings := by rw [hsame.account]; exact h.brings
  spends := by rw [hsame.transfers]; exact h.spends

section

variable {we : WalletEnv} {tx : Transaction} {height : Nat} {b : Block} {w w' : Wallet2}

/-- Such a transaction changes nothing about the money. -/
theorem Elsewhere.processNewTransaction (h : Elsewhere we w tx) (hi : w.Indexed)
    (hrun : processNewTransaction we tx height b w = .ok () w') : SameMoney w w' := by
  obtain ⟨r, hread, -, hw'⟩ := processNewTransaction_ok hi hrun
  have hnone : newTransfers we w.mAccount tx height r = [] := by
    have himages := newTransfers_images height hread
    rw [h.brings] at himages
    exact List.map_eq_nil_iff.1 himages
  have hsettled : w.settle we.env tx = w := settle_of_none h.pending
  have hmarked : (inputImages tx.vin).foldl Wallet2.markSpent w = w :=
    foldl_markSpent_of_spent fun k hk i td hi' htd => by
      obtain ⟨td', htd', himage⟩ := hi k i hi'
      rw [htd] at htd'
      cases htd'
      exact h.spends td (List.mem_of_getElem? htd) (himage ▸ hk)
  have hscan : (scanTx we tx height b r w).mTransfers = w.mTransfers := by
    rw [scanTx_mTransfers, Wallet2.withNew, hnone, List.foldl_nil, hsettled, hmarked]
  have himages : (scanTx we tx height b r w).mKeyImages = w.mKeyImages := by
    rw [scanTx_mKeyImages, Wallet2.withNew, hnone, List.foldl_nil, hsettled]
  have hpending : (scanTx we tx height b r w).mUnconfirmedTxs = w.mUnconfirmedTxs := by
    rw [scanTx_mUnconfirmedTxs]
    exact FinMap.erase_of_none h.pending
  have haccount : (scanTx we tx height b r w).mAccount = w.mAccount := scanTx_mAccount
  rw [hw']
  exact ⟨haccount, hscan, himages, hpending⟩

/-- However many of them. -/
theorem processParsed_elsewhere {txs : List (Option Transaction)}
    (h : ∀ tx, some tx ∈ txs → Elsewhere we w tx) (hi : w.Indexed)
    (hrun : processParsed we height b txs w = .ok () w') : SameMoney w w' := by
  induction txs generalizing w with
  | nil =>
    cases hrun
    exact .refl _
  | cons t rest ih =>
    rcases t with _ | tx
    · cases hrun
    · rw [processParsed_cons] at hrun
      obtain ⟨_, v, hv, hrest⟩ := bind_eq_ok.1 hrun
      have hsame := (h tx List.mem_cons_self).processNewTransaction hi hv
      refine hsame.trans (ih (fun tx' htx' => ?_) (hsame.indexed hi) hrest)
      exact (h tx' (List.mem_cons_of_mem _ htx')).of_same hsame

/-- The new outputs are worth what was found. -/
theorem worthOf_newTransfers {acc : AccountBase} {r : TxReading}
    (hread : readTx we acc tx = .ok r) :
    worthOf (newTransfers we acc tx height r) = r.got := by
  have hworth : worthOf (newTransfers we acc tx height r) =
      sumAmounts (r.outs.map fun o => (tx.vout[o]?.map (·.amount)).getD 0) := by
    unfold worthOf newTransfers
    rw [List.map_map]
    rfl
  rw [hworth]
  obtain ⟨found, hlook, hgot, -, ⟨-, -, -, houts⟩ | ⟨-, houts⟩⟩ := readTx_found hread
  · rw [houts, ← hgot]
    unfold lookupTx at hlook
    split at hlook
    · cases hlook
    · cases hlook
    · split at hlook
      · cases hlook
      · next hacc =>
        cases hlook
        exact lookupAccOuts_amounts (List.drop_zero) hacc
  · rw [houts, (readTx_outs_nil hread).1 houts]
    rfl

/-- Of the old outputs none that counts is spent, of the new ones none. -/
theorem worthOf_spendIf {ks : List KeyImage} {tds : List TransferDetails}
    (h : ∀ td ∈ tds, td.mKeyImage ∈ ks → td.mSpent = true) :
    worthOf (tds.map (TransferDetails.spendIf ks)) = worthOf tds := by
  have hsame : tds.map (TransferDetails.spendIf ks) = tds.map id := by
    refine List.map_congr_left fun td htd => ?_
    unfold TransferDetails.spendIf
    by_cases hk : td.mKeyImage ∈ ks
    · rw [if_pos hk]
      exact spend_of_spent (h td htd hk)
    · exact if_neg hk
  rw [hsame, List.map_id]

/-- The transaction that was pending: its change goes, and what it brings comes. -/
theorem processNewTransaction_pending {utd : UnconfirmedTransferDetails} (h : w.Exact)
    (hpending : w.mUnconfirmedTxs[getTransactionHash we.env tx]? = some utd)
    (hfresh : (w.images ++ txImages we w.mAccount tx).Nodup)
    (hinputs : ∀ k ∈ inputImages tx.vin, k ∈ w.images)
    (hspent : ∀ td ∈ w.mTransfers, td.mKeyImage ∈ inputImages tx.vin → td.mSpent = true)
    (hrun : processNewTransaction we tx height b w = .ok () w') :
    ∃ r, readTx we w.mAccount tx = .ok r ∧ w'.mAccount = w.mAccount ∧ w'.Indexed ∧
      w'.mUnconfirmedTxs = w.mUnconfirmedTxs.erase (getTransactionHash we.env tx) ∧
      w'.mTransfers = (w.mTransfers ++ newTransfers we w.mAccount tx height r).map
        (TransferDetails.spendIf (inputImages tx.vin)) ∧
      w'.balance + utd.mChange = w.balance + r.got := by
  obtain ⟨r, hread, -, hw'⟩ := processNewTransaction_ok h.indexed hrun
  have himages := newTransfers_images height hread
  obtain ⟨hexact, htransfers⟩ := scanTx_exact b h (by rw [himages]; exact hfresh)
  have haccount : (scanTx we tx height b r w).mAccount = w.mAccount := scanTx_mAccount
  have hunconfirmed : (scanTx we tx height b r w).mUnconfirmedTxs =
      w.mUnconfirmedTxs.erase (getTransactionHash we.env tx) := scanTx_mUnconfirmedTxs
  have hnew : ∀ td ∈ newTransfers we w.mAccount tx height r,
      td.mKeyImage ∈ inputImages tx.vin → td.mSpent = true := by
    intro td htd hk
    have hmem : td.mKeyImage ∈ txImages we w.mAccount tx := himages ▸ List.mem_map_of_mem htd
    exact absurd hmem (List.disjoint_of_nodup_append hfresh (hinputs _ hk))
  have hworth : worthOf (scanTx we tx height b r w).mTransfers = worthOf w.mTransfers + r.got := by
    rw [htransfers, worthOf_spendIf, worthOf_append, worthOf_newTransfers hread]
    intro td htd hk
    rcases List.mem_append.1 htd with hold | hnew'
    · exact hspent td hold hk
    · exact hnew td hnew' hk
  have hchange : changeOf w.mUnconfirmedTxs = utd.mChange +
      changeOf (w.mUnconfirmedTxs.erase (getTransactionHash we.env tx)) := by
    rw [← changeOf_insert utd Std.ExtTreeMap.getElem?_erase_self, insert_erase_self hpending]
  have hbalance : w'.balance = worthOf w.mTransfers + r.got +
      changeOf (w.mUnconfirmedTxs.erase (getTransactionHash we.env tx)) := by
    rw [balance_eq, ← hworth, ← hunconfirmed, hw']
  refine ⟨r, hread, ?_, ?_, ?_, ?_, ?_⟩
  · rw [hw']
    exact haccount
  · rw [hw']
    exact hexact.indexed
  · rw [hw']
    exact hunconfirmed
  · rw [hw']
    exact htransfers
  · rw [hbalance, balance_eq, hchange]
    generalize worthOf w.mTransfers = worth
    generalize changeOf (w.mUnconfirmedTxs.erase (getTransactionHash we.env tx)) = others
    rw [UInt64.add_assoc, UInt64.add_comm others, UInt64.add_assoc, UInt64.add_assoc,
      UInt64.add_comm r.got]

/-- The block has the transaction, and the rest of it has nothing to do with the
wallet. -/
structure OnlyOwnIn (we : WalletEnv) (w : Wallet2) (tx : Transaction) (s : ServedBlock) : Prop where
  among : ∃ pre post, entryTxs we.env s.b s.txs = pre ++ some tx :: post ∧
    ∀ other, some other ∈ pre ++ post → Elsewhere (we.serving s) w other ∧
      ∀ k ∈ txImages (we.serving s) w.mAccount tx, k ∉ inputImages other.vin
  fresh : (w.images ++ txImages (we.serving s) w.mAccount tx).Nodup

/-- A block with it, read: the change goes and what comes back comes. -/
theorem OnlyOwnIn.processNewBlockchainEntry {s : ServedBlock} {utd : UnconfirmedTransferDetails}
    (h : OnlyOwnIn we w tx s) (hexact : w.Exact)
    (hpending : w.mUnconfirmedTxs[getTransactionHash we.env tx]? = some utd)
    (hinputs : ∀ k ∈ inputImages tx.vin, k ∈ w.images)
    (hspent : ∀ td ∈ w.mTransfers, td.mKeyImage ∈ inputImages tx.vin → td.mSpent = true)
    (hrecent : recentEnough w.mAccount s.b = true)
    (hrun : processNewBlockchainEntry (we.serving s) s.b s.txs s.blId height w = .ok () w') :
    ∃ r, readTx (we.serving s) w.mAccount tx = .ok r ∧
      w'.balance + utd.mChange = w.balance + r.got := by
  obtain ⟨pre, post, hentries, hothers⟩ := h.among
  by_cases hheight : height = w.mBlockchain.length
  · cases hparsed : processParsed (we.serving s) height s.b (entryTxs we.env s.b s.txs) w with
    | error ex v =>
      rw [processNewBlockchainEntry_broken _ hheight hrecent hparsed] at hrun
      cases hrun
    | ok _ v =>
      rw [processNewBlockchainEntry_through hheight hrecent hparsed] at hrun
      cases hrun
      rw [hentries, processParsed_append] at hparsed
      cases hpre : processParsed (we.serving s) height s.b pre w with
      | error ex u =>
        rw [hpre] at hparsed
        cases hparsed
      | ok _ w₁ =>
        rw [hpre] at hparsed
        simp only at hparsed
        rw [processParsed_cons] at hparsed
        obtain ⟨_, w₂, htx, hpost⟩ := bind_eq_ok.1 hparsed
        -- before it, it, and behind it
        have hbefore : SameMoney w w₁ := processParsed_elsewhere
          (fun other hother => (hothers other (List.mem_append_left _ hother)).1) hexact.indexed hpre
        have himages : w₁.images = w.images := by
          unfold Wallet2.images
          rw [hbefore.transfers]
        obtain ⟨r, hread, haccount, hindexed, hunconfirmed, htransfers, hbalance⟩ :=
          processNewTransaction_pending (hexact.of_same hbefore.images himages)
            (by rw [hbefore.pending]; exact hpending)
            (by rw [himages, hbefore.account]; exact h.fresh)
            (by rw [himages]; exact hinputs) (by rw [hbefore.transfers]; exact hspent) htx
        rw [hbefore.account] at hread haccount htransfers
        have hbehind : SameMoney w₂ v := by
          refine processParsed_elsewhere (fun other hother => ?_) hindexed hpost
          obtain ⟨helse, hapart⟩ := hothers other (List.mem_append_right _ hother)
          refine ⟨?_, ?_, ?_⟩
          · rw [hunconfirmed, hbefore.pending]
            by_cases hid : getTransactionHash we.env other = getTransactionHash we.env tx
            · exact hid ▸ Std.ExtTreeMap.getElem?_erase_self
            · exact (FinMap.getElem?_erase_ne hid).trans helse.pending
          · rw [haccount]
            exact helse.brings
          · intro td htd hk
            rw [htransfers] at htd
            obtain ⟨td', htd', rfl⟩ := List.mem_map.1 htd
            rw [spendIf_mKeyImage] at hk
            rcases List.mem_append.1 htd' with hold | hnew
            · have hspent' := helse.spends td' (hbefore.transfers ▸ hold) hk
              rcases spendIf_cases (inputImages tx.vin) td' with hsame | hsame
              · rw [hsame]
                exact hspent'
              · rw [hsame]
                rfl
            · have hmem : td'.mKeyImage ∈ txImages (we.serving s) w.mAccount tx :=
                newTransfers_images height hread ▸ List.mem_map_of_mem hnew
              exact absurd hk (hapart _ hmem)
        refine ⟨r, hread, ?_⟩
        have hpushed : (v.pushBlock s.blId).balance = v.balance := rfl
        rw [hpushed, hbehind.balance, hbalance, hbefore.balance]
  · rw [processNewBlockchainEntry_misplaced hheight] at hrun
    cases hrun

end

/-! ## The payment -/

/-- The balance drops by what is paid and the fee, the payment is reported as what
is paid, and the block changes nothing. -/
structure AccountedExactly (we : WalletEnv) (o : TransferOrder) (w : Wallet2) (tx : Transaction)
    (w' : Wallet2) : Prop where
  drop : w.balance = w'.balance + (sumAmounts (o.dsts.map TxDestinationEntry.amount) +
    UInt64.ofNat (feeTotal tx.toTransactionPrefix))
  reported : ∃ utd, w'.mUnconfirmedTxs[getTransactionHash we.env tx]? = some utd ∧
    (walletTransferInfoFromUnconfirmedTransferDetails we.env utd).amount =
      sumAmounts (o.dsts.map TxDestinationEntry.amount)
  processed : ∀ (s : ServedBlock) (w'' : Wallet2), OnlyOwnIn we w' tx s →
    processNewBlockchainEntry (we.serving s) s.b s.txs s.blId w'.mBlockchain.length w' = .ok () w'' →
    w''.balance = w'.balance

/-- What the outputs of a transaction come to. -/
theorem getOutsMoneyAmount_eq (tx : TransactionPrefix) :
    getOutsMoneyAmount tx = sumAmounts (tx.vout.map (·.amount)) := by
  have hgo : ∀ (vout : List TxOut) (money : UInt64),
      vout.foldl (fun (money : UInt64) o => money + o.amount) money =
        money + sumAmounts (vout.map (·.amount)) := by
    intro vout
    induction vout with
    | nil => exact fun money => (UInt64.add_zero money).symm
    | cons out rest ih =>
      intro money
      rw [List.foldl_cons, ih, List.map_cons, sumAmounts_cons, UInt64.add_assoc]
  exact (hgo tx.vout 0).trans (UInt64.zero_add _)

theorem walletTransferInfoFromUnconfirmed_amount (env : Env) (u : UnconfirmedTransferDetails) :
    (walletTransferInfoFromUnconfirmedTransferDetails env u).amount =
      getOutsMoneyAmount u.mTx.toTransactionPrefix - u.mChange := rfl

/-- The 64-bit sum is the sum, if that has 64 bits. -/
theorem toNat_entries {des : List TxDestinationEntry} (h : entriesTotal des < 2 ^ 64) :
    (sumAmounts (des.map TxDestinationEntry.amount)).toNat = entriesTotal des := by
  rw [toNat_sumAmounts]
  · rw [List.map_map]
    rfl
  · rw [List.map_map]
    exact h

/-- Of the entries, those to the wallet are the change. -/
theorem entriesFor_placed {addr : AccountPublicAddress} {dsts change placed : List TxDestinationEntry}
    {parts : List (List TxDestinationEntry)} (hperm : placed.Perm (parts.flatten ++ change))
    (hparts : List.Forall₂ (fun de part => (∀ p ∈ part, p.addr = de.addr) ∧
      entriesTotal part = de.amount.toNat) dsts parts)
    (hothers : ∀ de ∈ dsts, de.addr ≠ addr) (hchange : ∀ p ∈ change, p.addr = addr) :
    entriesFor addr placed = sumAmounts (change.map TxDestinationEntry.amount) := by
  have hnone : parts.flatten.filter (fun de => decide (de.addr = addr)) = [] := by
    rw [List.filter_eq_nil_iff]
    intro p hp
    obtain ⟨part, hpart, hmem⟩ := List.mem_flatten.1 hp
    clear hperm
    induction hparts with
    | nil => cases hpart
    | cons hfirst _ ih =>
      rcases List.mem_cons.1 hpart with rfl | hrest
      · rw [hfirst.1 p hmem, decide_eq_true_eq]
        exact hothers _ List.mem_cons_self
      · refine ih (fun de hde => hothers de (List.mem_cons_of_mem _ hde)) ?_ hrest
        exact List.mem_flatten.2 ⟨part, hrest, hmem⟩
  have hall : change.filter (fun de => decide (de.addr = addr)) = change :=
    List.filter_eq_self.2 fun p hp => decide_eq_true (hchange p hp)
  unfold entriesFor
  rw [sumAmounts_perm ((hperm.filter _).map TxDestinationEntry.amount), List.filter_append, hnone,
    hall, List.nil_append]

section

variable {we : WalletEnv} {te : TransferEnv} {o : TransferOrder} {acc : AccountBase}
  {seen : List KeyImage} {w w' : Wallet2} {tx : Transaction}

/-- The money of a transfer: what it needed is gone from the balance. -/
theorem balance_of_transfer {built : BuiltTransfer} {recipient : Blob}
    (hpays : PaysExactly { te with we } o w built)
    (hunspent : ∀ i ∈ built.selected, ∃ td, w.mTransfers[i]? = some td ∧ td.mSpent = false)
    (hchange : built.changeDts.amount.toNat + built.neededMoney.toNat = built.foundMoney.toNat)
    (hnew : w.mUnconfirmedTxs[getTransactionHash we.env built.tx]? = none)
    (hw' : w' = (w.addSentUnconfirmedTx { te with we } built.tx built.changeDts.amount
      recipient).spendSelected built.selected) :
    w.balance = w'.balance + built.neededMoney := by
  have hworth : worthOf w.mTransfers = sumAmounts ((built.selected.filterMap fun i =>
      w.mTransfers[i]?).map TransferDetails.amount) + worthOf w'.mTransfers := by
    rw [hw']
    exact worthOf_foldl_spend hpays.distinct hunspent
  have hpending : changeOf w'.mUnconfirmedTxs =
      built.changeDts.amount + changeOf w.mUnconfirmedTxs := by
    rw [hw']
    exact changeOf_insert _ hnew
  have hselected : (((built.selected.filterMap fun i => w.mTransfers[i]?).map
      TransferDetails.amount).map UInt64.toNat).sum = built.foundMoney.toNat := by
    rw [← hpays.found, List.map_map]
    exact (congrArg List.sum hpays.inputs).symm
  have hfound : sumAmounts ((built.selected.filterMap fun i => w.mTransfers[i]?).map
      TransferDetails.amount) = built.changeDts.amount + built.neededMoney := by
    apply UInt64.toNat_inj.1
    rw [toNat_sumAmounts (by rw [hselected]; exact UInt64.toNat_lt _), hselected, UInt64.toNat_add,
      hchange, Nat.mod_eq_of_lt (UInt64.toNat_lt _)]
  rw [balance_eq, balance_eq, hworth, hpending, hfound]
  generalize worthOf w'.mTransfers = left
  generalize changeOf w.mUnconfirmedTxs = others
  rw [UInt64.add_comm _ left, UInt64.add_assoc, UInt64.add_assoc, UInt64.add_assoc, UInt64.add_assoc,
    UInt64.add_comm built.neededMoney]

/-- What is paid and the fee come to what was needed and the dust. -/
theorem paid_and_fee {built : BuiltTransfer} (hpays : PaysExactly te o w built) :
    sumAmounts (o.dsts.map TxDestinationEntry.amount) +
      UInt64.ofNat (feeTotal built.tx.toTransactionPrefix) = built.neededMoney + built.dust := by
  have hneeded := hpays.needed
  have hfee := hpays.fee
  have hlt := UInt64.toNat_lt built.neededMoney
  have hentries : (sumAmounts (o.dsts.map TxDestinationEntry.amount)).toNat =
      entriesTotal o.dsts := toNat_entries (by omega)
  apply UInt64.toNat_inj.1
  rw [UInt64.toNat_add, UInt64.toNat_add, hentries, UInt64.toNat_ofNat', feeTotal]
  omega

/-- The outputs come to what is paid and the change without its dust. -/
theorem outs_and_dust {built : BuiltTransfer} (hpays : PaysExactly te o w built)
    (hchange : built.changeDts.amount.toNat + built.neededMoney.toNat = built.foundMoney.toNat) :
    getOutsMoneyAmount built.tx.toTransactionPrefix + built.dust =
      sumAmounts (o.dsts.map TxDestinationEntry.amount) + built.changeDts.amount := by
  have hneeded := hpays.needed
  have hfound := hpays.found
  have hfee := hpays.fee
  have hlt := UInt64.toNat_lt built.foundMoney
  have hentries : (sumAmounts (o.dsts.map TxDestinationEntry.amount)).toNat =
      entriesTotal o.dsts := toNat_entries (by omega)
  have houts : (getOutsMoneyAmount built.tx.toTransactionPrefix).toNat =
      outsTotal built.tx.toTransactionPrefix := by
    rw [getOutsMoneyAmount_eq, toNat_sumAmounts]
    · rw [List.map_map]
      rfl
    · rw [List.map_map]
      show outsTotal built.tx.toTransactionPrefix < 2 ^ 64
      omega
  apply UInt64.toNat_inj.1
  rw [UInt64.toNat_add, UInt64.toNat_add, hentries, houts]
  omega

/-- What the wallet finds in the transaction is its change without the dust. -/
theorem got_of_transfer {built : BuiltTransfer} {we' : WalletEnv} {r : TxReading}
    (hpays : PaysExactly te o w built) (hacc : w.mAccount = acc)
    (hchange : built.changeDts.amount.toNat + built.neededMoney.toNat = built.foundMoney.toNat)
    (hothers : ∀ de ∈ o.dsts, de.addr ≠ acc.keys.mAccountAddress)
    (hrec : Recognised te acc built.tx) (henv : we'.env = te.we.env)
    (hread : readTx we' acc built.tx = .ok r) : r.got + built.dust = built.changeDts.amount := by
  obtain ⟨parts, change, placed, hperm, hpaid, hparts, hown, htotal⟩ := hpays.outputs
  rw [hacc] at hown
  obtain ⟨found, hlook, hgot, -, -⟩ := readTx_found hread
  have hentries : found.got = entriesFor acc.keys.mAccountAddress placed := by
    have hkey := hrec.readsKey
    unfold getTxPubKeyFromExtra at hkey
    unfold lookupTx at hlook
    rw [henv] at hlook
    cases hparse : parseAndValidateTxExtra te.we.env built.tx.toTransactionPrefix with
    | error ex =>
      rw [hparse] at hkey
      cases hkey
    | ok parsed =>
      obtain ⟨valid, info⟩ := parsed
      rw [hparse] at hkey hlook
      have hpub : info.mTxPubKey = te.kd.pub te.txkey := Except.ok.inj hkey
      cases valid with
      | false => cases hlook
      | true =>
        simp only [hpub] at hlook
        cases hacc' : lookupAccOuts te.we.env acc.keys (te.kd.pub te.txkey) 0 built.tx.vout with
        | none =>
          rw [hacc'] at hlook
          cases hlook
        | some outs =>
          rw [hacc'] at hlook
          cases hlook
          exact lookupAccOuts_entriesFor hrec hpaid hacc'
  rw [← hgot, hentries, entriesFor_placed hperm hparts hothers hown]
  have hlt := UInt64.toNat_lt built.foundMoney
  apply UInt64.toNat_inj.1
  rw [UInt64.toNat_add, toNat_entries (by omega)]
  omega

/-- A transfer from a settled wallet is accounted exactly when its change has no
dust. -/
theorem Wallet2.Settled.accounted_iff (h : w.Settled we acc seen)
    (hdigits : o.destinationSplitStrategy = digitSplitStrategy)
    (hfee : o.dustPolicy.addToFee = true)
    (hothers : ∀ de ∈ o.dsts, de.addr ≠ acc.keys.mAccountAddress)
    (hsent : transfer { te with we } o w = .ok tx w')
    (hnew : w.mUnconfirmedTxs[getTransactionHash we.env tx]? = none)
    (hrec : Recognised { te with we } acc tx) :
    AccountedExactly we o w tx w' ↔ changeDustOf te.now o w = 0 := by
  have hderived : ∀ td ∈ w.mTransfers, td.Derived we w.mAccount := h.account ▸ h.derived
  have hsettled : w'.Settled we acc seen := h.send hsent
  obtain ⟨built, hbuilt, rfl, hw'⟩ := transfer_built hsent
  obtain ⟨hchangeAmount, hdust⟩ := buildTransfer_change hdigits hfee hbuilt
  obtain ⟨hunspent, himages⟩ := buildTransfer_selects hbuilt hderived
  have hpays := buildTransfer_pays (hdigits ▸ digitSplitStrategy_splits) hfee hbuilt
  -- the balance falls by what was selected less the change
  have hbalance := balance_of_transfer hpays hunspent hchangeAmount hnew hw'
  have hutd : w'.mUnconfirmedTxs[getTransactionHash we.env built.tx]? = some
      { mTx := built.tx
        mChange := built.changeDts.amount
        mSentTime := te.now
        mRecipient := recipientStr { te with we } o.dsts
        mRecipientAlias := te.aliasForAddress (recipientStr { te with we } o.dsts) } := by
    rw [hw']
    exact Std.ExtTreeMap.getElem?_insert_self
  rw [show te.now = ({ te with we } : TransferEnv).now from rfl, ← hdust]
  constructor
  · intro hexact
    -- dust of the change leaves the balance and is in neither the payment nor the fee
    have hdrop := hexact.drop
    rw [hbalance, paid_and_fee hpays] at hdrop
    have hsame := (UInt64.add_right_inj _).1 hdrop
    exact (UInt64.add_eq_left.1 hsame.symm)
  · intro hnone
    have houts := outs_and_dust hpays hchangeAmount
    rw [hnone, UInt64.add_zero] at houts
    refine ⟨?_, ⟨_, hutd, ?_⟩, ?_⟩
    · rw [hbalance, paid_and_fee hpays, hnone, UInt64.add_zero]
    · rw [walletTransferInfoFromUnconfirmed_amount, houts]
      exact UInt64.add_sub_cancel _ _
    · intro s w'' honly hrun
      have hw'acc : w'.mAccount = acc := hsettled.account
      by_cases hrecent : recentEnough w'.mAccount s.b = true
      -- marking the outputs spent has not changed their key images
      · have hinputs : ∀ k ∈ inputImages built.tx.vin, k ∈ w'.images := by
          have hkept : w'.images = w.images := by
            rw [hw']
            exact foldl_spend_images built.selected w.mTransfers
          intro k hk
          rw [himages] at hk
          obtain ⟨td, htd, rfl⟩ := List.mem_map.1 hk
          obtain ⟨i, -, hi⟩ := List.mem_filterMap.1 htd
          rw [hkept]
          exact List.mem_map_of_mem (List.mem_of_getElem? hi)
        obtain ⟨r, hread, hafter⟩ := honly.processNewBlockchainEntry hsettled.exact hutd hinputs
          (hsettled.spent _ _ hutd) hrecent hrun
        rw [hw'acc] at hread
        have henv : (we.serving s).env = we.env := rfl
        have hgot := got_of_transfer hpays h.account hchangeAmount hothers hrec henv hread
        rw [hnone, UInt64.add_zero] at hgot
        rw [hgot] at hafter
        exact UInt64.add_left_inj _ |>.1 hafter
      · rw [processNewBlockchainEntry_old rfl hrecent] at hrun
        cases hrun
        rfl

end

/-- In a run in which no block interferes with what stays pending, a payment in
digits to others is accounted exactly when its change has no dust. -/
theorem pending_payment_exact_iff {we : WalletEnv} {acc : AccountBase} {g : Hash}
    {es : List WalletEvent} {j : Journal} {te : TransferEnv} {o : TransferOrder} {tx : Transaction}
    {w' : Wallet2} (hmeets : Runs.Meets (walletStep we) (LeavesPending we) es (.fresh acc g))
    (hrun : Runs.run (walletStep we) es (.fresh acc g) = some j)
    (hdigits : o.destinationSplitStrategy = digitSplitStrategy)
    (hfee : o.dustPolicy.addToFee = true)
    (hothers : ∀ de ∈ o.dsts, de.addr ≠ acc.keys.mAccountAddress)
    (hsent : transfer { te with we } o j.wallet = .ok tx w')
    (hnew : j.wallet.mUnconfirmedTxs[getTransactionHash we.env tx]? = none)
    (hrec : Recognised { te with we } acc tx) :
    AccountedExactly we o j.wallet tx w' ↔ changeDustOf te.now o j.wallet = 0 := by
  have hsettled : j.wallet.Settled we acc j.spent.flatten :=
    Runs.run_keeps (I := fun j : Journal => j.wallet.Settled we acc j.spent.flatten)
      (fun _ _ _ => walletStep_settled) (fresh_settled we acc g _) hmeets hrun
  exact hsettled.accounted_iff hdigits hfee hothers hsent hnew hrec

namespace Devnet

/-- Paid, and ten blocks on. -/
def waits : List WalletEvent := .block payBlock :: emptyBlocks 2 10

/-- The wallet of the example pays somebody. -/
def sends (amount : UInt64) : EStateM.Result WalletError Wallet2 Transaction :=
  transfer transferEnv (order amount) (lived waits).wallet

/-- The transaction of that payment. -/
def sentTx (amount : UInt64) : Transaction := (returned (sends amount)).getD .blank

/-- The payment goes through. -/
theorem sends_eq {amount : UInt64} (h : (returned (sends amount)).isSome = true) :
    sends amount = .ok (sentTx amount) (stateOf (sends amount)) := by
  unfold sentTx
  cases hsend : sends amount with
  | ok tx w' => rfl
  | error ex w' =>
    rw [hsend] at h
    cases h

/-- The keys of the purse are the even ones. -/
theorem transferEnv_recognised {tx : Transaction}
    (hread : getTxPubKeyFromExtra transferEnv.we.env tx = .ok 2) :
    Recognised transferEnv purse tx where
  readsKey := hread
  own := by
    intro addr i key hkey
    cases hkey
    show (oneTimeKey addr 2 i == oneTimeKey purse.keys.mAccountAddress 2 i) = true ↔ _
    rw [beq_iff_eq]
    constructor
    · intro hsame
      by_contra hother
      have hnat := congrArg BitVec.toNat hsame
      unfold oneTimeKey at hnat
      rw [if_neg hother, if_pos rfl, BitVec.toNat_ofNat, BitVec.toNat_ofNat] at hnat
      omega
    · rintro rfl
      rfl

end Devnet

/-- A hundred and thirty coins with the fee, out of two hundred: the change has no
dust. -/
theorem pending_payment_exact_devnet :
    ∃ w', Devnet.sends 1299000000000 = .ok (Devnet.sentTx 1299000000000) w' ∧
      AccountedExactly (Devnet.walletEnv Devnet.answering) (Devnet.order 1299000000000)
        (Devnet.lived Devnet.waits).wallet (Devnet.sentTx 1299000000000) w' := by
  have eval :
      (Devnet.lives Devnet.waits).isSome = true ∧
      Runs.Meets (walletStep (Devnet.walletEnv Devnet.answering))
        (LeavesPending (Devnet.walletEnv Devnet.answering)) Devnet.waits (.fresh Devnet.purse 1) ∧
      (returned (Devnet.sends 1299000000000)).isSome = true ∧
      getTxPubKeyFromExtra Devnet.transferEnv.we.env (Devnet.sentTx 1299000000000) = .ok 2 ∧
      ((Devnet.lived Devnet.waits).wallet.mUnconfirmedTxs[getTransactionHash Devnet.transferEnv.we.env
        (Devnet.sentTx 1299000000000)]?.isNone) = true ∧
      changeDustOf Devnet.now (Devnet.order 1299000000000) (Devnet.lived Devnet.waits).wallet = 0 := by
    decide +kernel
  obtain ⟨hlives, hmeets, hsent, hread, hnew, hdust⟩ := eval
  have hothers : ∀ de ∈ (Devnet.order 1299000000000).dsts,
      de.addr ≠ Devnet.purse.keys.mAccountAddress := by
    intro de hde
    rw [List.mem_singleton.1 hde]
    decide
  have hsends : transfer { Devnet.transferEnv with we := Devnet.walletEnv Devnet.answering }
      (Devnet.order 1299000000000) (Devnet.lived Devnet.waits).wallet =
        .ok (Devnet.sentTx 1299000000000) (stateOf (Devnet.sends 1299000000000)) :=
    Devnet.sends_eq hsent
  have hrec : Recognised { Devnet.transferEnv with we := Devnet.walletEnv Devnet.answering }
      Devnet.purse (Devnet.sentTx 1299000000000) := Devnet.transferEnv_recognised hread
  exact ⟨stateOf (Devnet.sends 1299000000000), hsends,
    (pending_payment_exact_iff hmeets (Devnet.lives_eq hlives) rfl rfl hothers hsends
      (Option.isNone_iff_eq_none.1 hnew) hrec).2 hdust⟩

/-- A hundred and thirty coins and a bit: the dust is gone, and the wallet counts on
it. -/
theorem pending_payment_inexact :
    ∃ j tx w', Runs.run (walletStep (Devnet.walletEnv Devnet.answering)) Devnet.waits
        (.fresh Devnet.purse 1) = some j ∧
      transfer Devnet.transferEnv (Devnet.order 1300000000005) j.wallet = .ok tx w' ∧
      ¬ AccountedExactly (Devnet.walletEnv Devnet.answering) (Devnet.order 1300000000005) j.wallet
        tx w' := by
  have eval :
      (Devnet.lives Devnet.waits).isSome = true ∧
      (returned (Devnet.sends 1300000000005)).isSome = true ∧
      (Devnet.lived Devnet.waits).wallet.balance ≠ (stateOf (Devnet.sends 1300000000005)).balance +
        (sumAmounts ((Devnet.order 1300000000005).dsts.map TxDestinationEntry.amount) +
          UInt64.ofNat (feeTotal (Devnet.sentTx 1300000000005).toTransactionPrefix)) := by
    decide +kernel
  obtain ⟨hlives, hsent, hdrop⟩ := eval
  refine ⟨Devnet.lived Devnet.waits, Devnet.sentTx 1300000000005,
    stateOf (Devnet.sends 1300000000005), Devnet.lives_eq hlives, Devnet.sends_eq hsent, ?_⟩
  intro hexact
  exact hdrop hexact.drop

end DarknetSpace
