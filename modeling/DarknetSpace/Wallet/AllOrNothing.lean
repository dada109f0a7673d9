import DarknetSpace.Wallet.Scan

/-!
# A block that fails half way

`process_new_blockchain_entry` reads the transactions of a block one after the
other, and each may throw: it does not parse, its extra is bad, the daemon does
not answer. What the ones before it wrote stays, and `refresh` comes back with
the whole block. So a failure leaves the wallet alone exactly when the
transactions before it were foreign to the wallet, and the one that failed was
not pending.

A run of the transactions is cut at the one that throws. What was written before can be
told from what is missing, since nothing a transaction writes is ever taken back by a
later one. Main result: `entry_all_or_nothing`, for every wallet, block and place at
which it breaks off.
-/

namespace DarknetSpace

open StateExn

/-! ## The transactions of a block -/

/-- The coinbase and what the blobs parse to. -/
def entryTxs (env : Env) (b : Block) (txs : List Blob) : List (Option Transaction) :=
  some b.minerTx :: txs.map env.parseTx

/-- The transactions of a block in order, as `process_new_blockchain_entry` goes
through them. -/
def processParsed (we : WalletEnv) (height : Nat) (b : Block) :
    List (Option Transaction) → WalletM Unit
  | [] => pure ()
  | none :: _ => throw .txParse
  | some tx :: rest => do
    processNewTransaction we tx height b
    processParsed we height b rest

/-- Reading and scanning may be taken apart: a blob that does not parse throws where it stands. -/
theorem processTxs_eq (we : WalletEnv) (height : Nat) (b : Block) (txs : List Blob) :
    processTxs we height b txs = processParsed we height b (txs.map we.env.parseTx) := by
  induction txs with
  | nil => rfl
  | cons txblob rest ih =>
    unfold processTxs
    rw [List.map_cons]
    cases we.env.parseTx txblob with
    | none => rfl
    | some tx =>
      simp only
      rw [ih]
      rfl

/-- The block is pushed once its transactions are through. -/
def Wallet2.pushBlock (w : Wallet2) (blId : Hash) : Wallet2 :=
  { w with
    mBlockchain := w.mBlockchain ++ [blId]
    mLocalBcHeight := w.mLocalBcHeight + 1 }

theorem processEntryTxs_eq (we : WalletEnv) {acc : AccountBase} {b : Block} (txs : List Blob)
    (height : Nat) (h : recentEnough acc b = true) :
    processEntryTxs we acc b txs height = processParsed we height b (entryTxs we.env b txs) := by
  unfold processEntryTxs
  rw [if_pos h, processTxs_eq]
  rfl

/-- The four ways through a block: out of place, from before the account was
made, through, and broken off. -/
theorem processNewBlockchainEntry_misplaced {we : WalletEnv} {b : Block} {txs : List Blob}
    {blId : Hash} {height : Nat} {w : Wallet2} (h : height ≠ w.mBlockchain.length) :
    processNewBlockchainEntry we b txs blId height w =
      .error (.walletInternal "current_index does not match m_blockchain.size()") w := by
  unfold processNewBlockchainEntry
  rw [bind_of_ok (get_apply w), if_pos h]
  rfl

section

variable {we : WalletEnv} {b : Block} {txs : List Blob} {height : Nat} {w : Wallet2}

theorem processNewBlockchainEntry_old {blId : Hash} (h : height = w.mBlockchain.length)
    (hold : ¬ recentEnough w.mAccount b = true) :
    processNewBlockchainEntry we b txs blId height w = .ok () (w.pushBlock blId) := by
  unfold processNewBlockchainEntry processEntryTxs
  rw [bind_of_ok (get_apply w), if_neg (not_not.2 h), if_neg hold]
  rfl

/-- A block whose transactions were all read adds its id behind them. -/
theorem processNewBlockchainEntry_through {blId : Hash} {w' : Wallet2}
    (h : height = w.mBlockchain.length) (hrecent : recentEnough w.mAccount b = true)
    (hparsed : processParsed we height b (entryTxs we.env b txs) w = .ok () w') :
    processNewBlockchainEntry we b txs blId height w = .ok () (w'.pushBlock blId) := by
  unfold processNewBlockchainEntry
  rw [bind_of_ok (get_apply w), if_neg (not_not.2 h), processEntryTxs_eq we txs height hrecent,
    bind_of_ok hparsed]
  rfl

/-- A block with a transaction that throws leaves what the ones in front of it did. -/
theorem processNewBlockchainEntry_broken (blId : Hash) {w' : Wallet2} {ex : WalletError}
    (h : height = w.mBlockchain.length) (hrecent : recentEnough w.mAccount b = true)
    (hparsed : processParsed we height b (entryTxs we.env b txs) w = .error ex w') :
    processNewBlockchainEntry we b txs blId height w = .error ex w' := by
  unfold processNewBlockchainEntry
  rw [bind_of_ok (get_apply w), if_neg (not_not.2 h), processEntryTxs_eq we txs height hrecent]
  exact bind_of_error hparsed

end

/-! ## What a scan touches -/

section

variable {we : WalletEnv} {tx : Transaction} {height : Nat} {b : Block} {r : TxReading}
  {w : Wallet2}

theorem markSpent_eq (w : Wallet2) (k : KeyImage) :
    w.markSpent k = { w with mTransfers := (w.markSpent k).mTransfers } := by
  unfold Wallet2.markSpent
  split
  · rfl
  · rfl

/-- The same for several. -/
theorem foldl_markSpent_eq (ks : List KeyImage) (w : Wallet2) :
    ks.foldl Wallet2.markSpent w =
      { w with mTransfers := (ks.foldl Wallet2.markSpent w).mTransfers } := by
  induction ks generalizing w with
  | nil => rfl
  | cons k ks ih =>
    rw [List.foldl_cons, ih, markSpent_eq]

/-- New transfers write the transfers and the table of key images. -/
theorem foldl_addTransfer_eq (tds : List TransferDetails) (w : Wallet2) :
    tds.foldl Wallet2.addTransfer w =
      { w with
        mTransfers := w.mTransfers ++ tds
        mKeyImages := (tds.foldl Wallet2.addTransfer w).mKeyImages } := by
  induction tds generalizing w with
  | nil => rw [List.append_nil]; rfl
  | cons td tds ih =>
    rw [List.foldl_cons, ih]
    simp only [Wallet2.addTransfer, List.append_assoc, List.singleton_append]

/-- The wallet once the new outputs are in. -/
def Wallet2.withNew (we : WalletEnv) (tx : Transaction) (height : Nat) (r : TxReading)
    (w : Wallet2) : Wallet2 :=
  (newTransfers we w.mAccount tx height r).foldl Wallet2.addTransfer (w.settle we.env tx)

theorem scanTx_mUnconfirmedTxs : (scanTx we tx height b r w).mUnconfirmedTxs =
    w.mUnconfirmedTxs.erase (getTransactionHash we.env tx) := by
  unfold scanTx
  simp only
  rw [foldl_markSpent_eq, foldl_addTransfer_eq]
  rfl

theorem scanTx_mTransfers : (scanTx we tx height b r w).mTransfers =
    ((inputImages tx.vin).foldl Wallet2.markSpent (w.withNew we tx height r)).mTransfers := rfl

theorem scanTx_mKeyImages : (scanTx we tx height b r w).mKeyImages =
    (w.withNew we tx height r).mKeyImages :=
  foldl_markSpent_mKeyImages _ _

theorem scanTx_mAccount : (scanTx we tx height b r w).mAccount = w.mAccount := by
  unfold scanTx
  simp only
  rw [foldl_markSpent_eq, foldl_addTransfer_eq]
  rfl

theorem scanTx_mBlockchain : (scanTx we tx height b r w).mBlockchain = w.mBlockchain := by
  unfold scanTx
  simp only
  rw [foldl_markSpent_eq, foldl_addTransfer_eq]
  rfl

theorem scanTx_mLocalBcHeight : (scanTx we tx height b r w).mLocalBcHeight = w.mLocalBcHeight := by
  unfold scanTx
  simp only
  rw [foldl_markSpent_eq, foldl_addTransfer_eq]
  rfl

/-- The payments after a transaction. -/
theorem scanTx_mPayments : (scanTx we tx height b r w).mPayments =
    notedPayments we.env tx height r.got
      (knownSpent (w.withNew we tx height r).mKeyImages tx.vin) + w.mPayments := by
  unfold scanTx Wallet2.withNew
  simp only
  rw [foldl_markSpent_eq, foldl_addTransfer_eq]
  rfl

/-- The history after a transaction. -/
theorem scanTx_mTransferHistory : (scanTx we tx height b r w).mTransferHistory =
    w.mTransferHistory ++ notedTransfers we.env b tx r.got
      (knownSpent (w.withNew we tx height r).mKeyImages tx.vin)
      ⟨r.outs, knownIndices (w.withNew we tx height r).mKeyImages 0 tx.vin⟩
      (w.recipientOf we.env tx) := by
  unfold scanTx Wallet2.withNew
  simp only
  rw [foldl_markSpent_eq, foldl_addTransfer_eq]
  rfl

theorem scanTx_indexed (h : w.Indexed) : (scanTx we tx height b r w).Indexed := by
  have hmarked : ((inputImages tx.vin).foldl Wallet2.markSpent (w.withNew we tx height r)).Indexed :=
    foldl_markSpent_indexed (foldl_addTransfer_indexed (w := w.settle we.env tx) h _) _
  exact hmarked

end

/-! ## Foreign transactions -/

/-- Nothing of the transaction is the wallet's: it is not pending, brings
nothing, and spends nothing that is not spent. -/
structure Foreign (we : WalletEnv) (w : Wallet2) (tx : Transaction) (r : TxReading) : Prop where
  settled : w.mUnconfirmedTxs[getTransactionHash we.env tx]? = none
  brings : r.got = 0
  spends : ∀ k ∈ inputImages tx.vin, ∀ (i : Nat) (td : TransferDetails), w.mKeyImages[k]? = some i →
    w.mTransfers[i]? = some td → td.mSpent = true
  amount : knownSpent w.mKeyImages tx.vin = 0

section

variable {we : WalletEnv} {tx : Transaction} {height : Nat} {b : Block} {r : TxReading}
  {w : Wallet2}

theorem settle_of_none (h : w.mUnconfirmedTxs[getTransactionHash we.env tx]? = none) :
    w.settle we.env tx = w := by
  unfold Wallet2.settle
  rw [FinMap.erase_of_none h]

/-- No money, no output: each output of the account carries some. -/
theorem lookupAccOuts_nothing {env : Env} {acc : AccountKeys} {txPubKey : PublicKey} {i : Nat}
    {vout : List TxOut} {got : UInt64} (h : lookupAccOuts env acc txPubKey i vout = some ([], got)) :
    got = 0 := by
  induction vout generalizing i got with
  | nil =>
    cases h
    rfl
  | cons out rest ih =>
    obtain ⟨amount, target⟩ := out
    cases target with
    | toScript _ _ | toScripthash _ => cases h
    | toKey key attr =>
      obtain ⟨⟨outs', got'⟩, hrest, hout⟩ := Option.map_eq_some_iff.1 h
      simp only at hout
      by_cases hmine : env.isOutToAcc acc key txPubKey i = true
      · rw [if_pos hmine] at hout
        cases hout
      · rw [if_neg hmine] at hout
        cases hout
        exact ih hrest

/-- The same for what is read of a transaction. -/
theorem readTx_outs_nil {acc : AccountBase} (h : readTx we acc tx = .ok r) :
    r.outs = [] ↔ r.got = 0 := by
  obtain ⟨found, hlook, hgot, -, ⟨hne, hpos, -, houts⟩ | ⟨hnone, houts⟩⟩ := readTx_found h
  · rw [houts, ← hgot]
    exact ⟨fun hnil => absurd hnil hne, fun hzero => absurd hzero hpos⟩
  · rw [← hgot]
    refine ⟨fun _ => ?_, fun _ => houts⟩
    by_contra hpos
    have hnil : found.outs = [] := by
      by_contra hne
      exact hnone ⟨hne, hpos⟩
    -- no output, no money
    unfold lookupTx at hlook
    split at hlook
    · cases hlook
    · cases hlook
    · split at hlook
      · cases hlook
      · next hacc =>
        cases hlook
        simp only at hnil
        subst hnil
        exact hpos (lookupAccOuts_nothing hacc)

theorem spend_of_spent {td : TransferDetails} (h : td.mSpent = true) : td.spend = td := by
  obtain ⟨_, _, _, _, _, _⟩ := td
  cases h
  rfl

/-- Marking what is spent changes nothing. -/
theorem markSpent_of_spent {k : KeyImage} (h : ∀ (i : Nat) (td : TransferDetails),
    w.mKeyImages[k]? = some i → w.mTransfers[i]? = some td → td.mSpent = true) :
    w.markSpent k = w := by
  unfold Wallet2.markSpent
  split
  · rfl
  · next i hi =>
    have hsame : w.mTransfers.modify i TransferDetails.spend = w.mTransfers := by
      apply List.ext_getElem?
      intro j
      cases htd : w.mTransfers[j]? with
      | none =>
        rw [List.getElem?_modify, htd]
        rfl
      | some td =>
        rw [getElem?_modify_of_some _ htd]
        by_cases hij : i = j
        · subst hij
          rw [if_pos rfl, spend_of_spent (h i td hi htd)]
        · rw [if_neg hij]
    rw [hsame]

/-- The same for several. -/
theorem foldl_markSpent_of_spent {ks : List KeyImage} (h : ∀ k ∈ ks, ∀ (i : Nat)
    (td : TransferDetails), w.mKeyImages[k]? = some i → w.mTransfers[i]? = some td →
      td.mSpent = true) : ks.foldl Wallet2.markSpent w = w := by
  induction ks with
  | nil => rfl
  | cons k ks ih =>
    rw [List.foldl_cons, markSpent_of_spent (h k List.mem_cons_self)]
    exact ih fun k' hk' => h k' (List.mem_cons_of_mem _ hk')

theorem notedPayments_nothing (env : Env) (tx : Transaction) (height : Nat) (spent : UInt64) :
    notedPayments env tx height 0 spent = 0 := by
  unfold notedPayments
  cases getPaymentIdFromTxExtra env tx with
  | none => rfl
  | some paymentId => exact if_neg fun h => h.1 rfl

theorem notedTransfers_nothing (env : Env) (b : Block) (tx : Transaction)
    (mtd : MoneyTransfer2Details) (recipient : Blob × Blob) :
    notedTransfers env b tx 0 0 mtd recipient = [] := by
  unfold notedTransfers
  rw [if_neg (not_not.2 rfl), if_neg (not_not.2 rfl)]

/-- A foreign transaction leaves the wallet as it is. -/
theorem Foreign.scanTx_eq (h : Foreign we w tx r) (hr : r.outs = []) :
    scanTx we tx height b r w = w := by
  have hnew : newTransfers we w.mAccount tx height r = [] := by
    unfold newTransfers
    rw [hr]
    rfl
  unfold scanTx
  simp only
  rw [hnew, List.foldl_nil, settle_of_none h.settled, h.brings, h.amount,
    notedTransfers_nothing, notedPayments_nothing, foldl_markSpent_of_spent h.spends,
    List.append_nil, Multiset.zero_add]

end

/-! ## Nothing is ever taken back -/

/-- Pending transactions only go, outputs only come and get spent, and the
history only grows. -/
structure Grown (w w' : Wallet2) : Prop where
  pending : ∀ id : Hash, w.mUnconfirmedTxs[id]? = none → w'.mUnconfirmedTxs[id]? = none
  transfers : ∀ (i : Nat) (td : TransferDetails), w.mTransfers[i]? = some td →
    ∃ td' : TransferDetails, w'.mTransfers[i]? = some td' ∧ (td.mSpent = true → td'.mSpent = true)
  history : w.mTransferHistory.length ≤ w'.mTransferHistory.length

theorem Grown.refl (w : Wallet2) : Grown w w :=
  ⟨fun _ h => h, fun _ td h => ⟨td, h, id⟩, Nat.le_refl _⟩

theorem Grown.trans {w₁ w₂ w₃ : Wallet2} (h : Grown w₁ w₂) (h' : Grown w₂ w₃) : Grown w₁ w₃ := by
  refine ⟨fun id hid => h'.pending id (h.pending id hid), ?_, Nat.le_trans h.history h'.history⟩
  intro i td htd
  obtain ⟨td₂, h₂, hs₂⟩ := h.transfers i td htd
  obtain ⟨td₃, h₃, hs₃⟩ := h'.transfers i td₂ h₂
  exact ⟨td₃, h₃, fun hs => hs₃ (hs₂ hs)⟩

/-- A wallet that has grown has as many transfers or more. -/
theorem Grown.length {w w' : Wallet2} (h : Grown w w') :
    w.mTransfers.length ≤ w'.mTransfers.length := by
  rcases Nat.eq_zero_or_pos w.mTransfers.length with hzero | hpos
  · omega
  · have hlast := List.getElem?_eq_getElem (l := w.mTransfers)
      (i := w.mTransfers.length - 1) (by omega)
    obtain ⟨td', htd', -⟩ := h.transfers _ _ hlast
    have := (List.getElem?_eq_some_iff.1 htd').1
    omega

/-- Settling a pending transaction adds to no list. -/
theorem settle_grown (env : Env) (tx : Transaction) (w : Wallet2) : Grown w (w.settle env tx) := by
  refine ⟨fun id hid => ?_, fun _ td h => ⟨td, h, fun hs => hs⟩, Nat.le_refl _⟩
  show (w.mUnconfirmedTxs.erase _)[id]? = none
  rw [Std.ExtTreeMap.getElem?_erase]
  split
  · rfl
  · exact hid

/-- A spent transfer stays spent. -/
theorem markSpent_grown (w : Wallet2) (k : KeyImage) : Grown w (w.markSpent k) := by
  unfold Wallet2.markSpent
  split
  · exact Grown.refl w
  · next i hi =>
    refine ⟨fun _ hid => hid, fun j td htd => ?_, Nat.le_refl _⟩
    show ∃ td', (w.mTransfers.modify i TransferDetails.spend)[j]? = some td' ∧ _
    rw [getElem?_modify_of_some _ htd]
    refine ⟨_, rfl, fun hs => ?_⟩
    by_cases hij : i = j
    · rw [if_pos hij]
      rfl
    · rw [if_neg hij]
      exact hs

theorem foldl_markSpent_grown (ks : List KeyImage) (w : Wallet2) :
    Grown w (ks.foldl Wallet2.markSpent w) := by
  induction ks generalizing w with
  | nil => exact Grown.refl w
  | cons k ks ih => exact (markSpent_grown w k).trans (ih _)

theorem foldl_addTransfer_grown (tds : List TransferDetails) (w : Wallet2) :
    Grown w (tds.foldl Wallet2.addTransfer w) := by
  rw [foldl_addTransfer_eq]
  refine ⟨fun _ hid => hid, fun i td htd => ⟨td, ?_, id⟩, Nat.le_refl _⟩
  show (w.mTransfers ++ tds)[i]? = some td
  rw [List.getElem?_append_left (List.getElem?_eq_some_iff.1 htd).1, htd]

/-- Marking adds no transfer. -/
theorem foldl_markSpent_length (ks : List KeyImage) (w : Wallet2) :
    (ks.foldl Wallet2.markSpent w).mTransfers.length = w.mTransfers.length := by
  induction ks generalizing w with
  | nil => rfl
  | cons k ks ih =>
    rw [List.foldl_cons, ih]
    unfold Wallet2.markSpent
    split
    · rfl
    · exact List.length_modify ..

/-- The output behind a known key image of the list ends up spent. -/
theorem foldl_markSpent_spends {ks : List KeyImage} {w : Wallet2} {k : KeyImage} (hk : k ∈ ks)
    {i : Nat} {td : TransferDetails} (hi : w.mKeyImages[k]? = some i)
    (htd : w.mTransfers[i]? = some td) :
    ∃ td', (ks.foldl Wallet2.markSpent w).mTransfers[i]? = some td' ∧ td'.mSpent = true := by
  induction ks generalizing w td with
  | nil => cases hk
  | cons k' ks ih =>
    rw [List.foldl_cons]
    rcases List.mem_cons.1 hk with rfl | hk'
    · have hmarked : (w.markSpent k).mTransfers[i]? = some td.spend := by
        unfold Wallet2.markSpent
        rw [hi]
        show (w.mTransfers.modify i TransferDetails.spend)[i]? = _
        rw [getElem?_modify_of_some _ htd, if_pos rfl]
      obtain ⟨td', htd', hs⟩ := (foldl_markSpent_grown ks _).transfers i _ hmarked
      exact ⟨td', htd', hs rfl⟩
    · obtain ⟨td₁, htd₁, -⟩ := (markSpent_grown w k').transfers i td htd
      exact ih hk' (by rw [markSpent_mKeyImages]; exact hi) htd₁

section

variable {we : WalletEnv} {tx : Transaction} {height : Nat} {b : Block} {r : TxReading}
  {w : Wallet2}

/-- A transaction makes the wallet grow. -/
theorem scanTx_grown : Grown w (scanTx we tx height b r w) := by
  have hscan := ((settle_grown we.env tx w).trans (foldl_addTransfer_grown
    (newTransfers we w.mAccount tx height r) _)).trans (foldl_markSpent_grown
    (inputImages tx.vin) _)
  refine ⟨hscan.pending, hscan.transfers, ?_⟩
  rw [scanTx_mTransferHistory, List.length_append]
  exact Nat.le_add_right _ _

/-- What leaves the wallet as it was, even after more, was foreign. -/
theorem foreign_of_grown (hread : readTx we w.mAccount tx = .ok r)
    (h : Grown (scanTx we tx height b r w) w) : Foreign we w tx r := by
  have hgot : r.got = 0 := by
    rw [← readTx_outs_nil hread]
    have hlen := h.length
    rw [scanTx_mTransfers, foldl_markSpent_length, Wallet2.withNew, foldl_addTransfer_eq] at hlen
    simp only [List.length_append, newTransfers, List.length_map] at hlen
    change w.mTransfers.length + r.outs.length ≤ w.mTransfers.length at hlen
    exact List.length_eq_zero_iff.1 (by omega)
  have hsettled : w.mUnconfirmedTxs[getTransactionHash we.env tx]? = none := by
    apply h.pending
    rw [scanTx_mUnconfirmedTxs, Std.ExtTreeMap.getElem?_erase_self]
  have hnew : w.withNew we tx height r = w := by
    unfold Wallet2.withNew newTransfers
    rw [(readTx_outs_nil hread).2 hgot, settle_of_none hsettled]
    rfl
  refine ⟨hsettled, hgot, ?_, ?_⟩
  · intro k hk i td hki htd
    obtain ⟨td', htd', hs⟩ := foldl_markSpent_spends hk hki htd
    have hscan : (scanTx we tx height b r w).mTransfers[i]? = some td' := by
      rw [scanTx_mTransfers, hnew]
      exact htd'
    obtain ⟨td₂, htd₂, hs₂⟩ := h.transfers i td' hscan
    rw [htd] at htd₂
    cases htd₂
    exact hs₂ hs
  · by_contra hspent
    have hlen := h.history
    rw [scanTx_mTransferHistory, hnew, hgot, List.length_append] at hlen
    have hnone : (notedTransfers we.env b tx 0 (knownSpent w.mKeyImages tx.vin)
        ⟨r.outs, knownIndices w.mKeyImages 0 tx.vin⟩ (w.recipientOf we.env tx)).length = 0 := by
      omega
    unfold notedTransfers at hnone
    rw [if_pos hspent] at hnone
    split at hnone
    · cases hnone
    · cases hnone

end

/-! ## A block -/

/-- A transaction of a block parses and can be read. -/
def Readable (we : WalletEnv) (acc : AccountBase) : Option Transaction → Prop
  | none => False
  | some tx => ∃ r, readTx we acc tx = .ok r

/-- A transaction that is foreign to the wallet, or one that cannot be read. -/
def ForeignTx (we : WalletEnv) (w : Wallet2) : Option Transaction → Prop
  | none => True
  | some tx => ∀ r, readTx we w.mAccount tx = .ok r → Foreign we w tx r

/-- A transaction that is not pending, or one that cannot be read. -/
def NotPending (env : Env) (w : Wallet2) : Option Transaction → Prop
  | none => True
  | some tx => w.mUnconfirmedTxs[getTransactionHash env tx]? = none

/-- The transactions before the first that cannot be read are foreign, and that
one is not pending. -/
def StopsClean (we : WalletEnv) (w : Wallet2) (txs : List (Option Transaction)) : Prop :=
  ∀ before stop after, txs = before ++ stop :: after →
    (∀ t ∈ before, Readable we w.mAccount t) → ¬ Readable we w.mAccount stop →
    (∀ t ∈ before, ForeignTx we w t) ∧ NotPending we.env w stop

/-- What `process_new_blockchain_entry` must not leave half done. -/
structure SameRecords (w w' : Wallet2) : Prop where
  transfers : w'.mTransfers = w.mTransfers
  keyImages : w'.mKeyImages = w.mKeyImages
  payments : w'.mPayments = w.mPayments
  transferHistory : w'.mTransferHistory = w.mTransferHistory
  unconfirmedTxs : w'.mUnconfirmedTxs = w.mUnconfirmedTxs
  blockchain : w'.mBlockchain = w.mBlockchain

theorem SameRecords.refl (w : Wallet2) : SameRecords w w := ⟨rfl, rfl, rfl, rfl, rfl, rfl⟩

/-- A wallet with the same records has grown by nothing. -/
theorem SameRecords.grown {w w' : Wallet2} (h : SameRecords w w') : Grown w' w := by
  refine ⟨?_, ?_, ?_⟩
  · rw [h.unconfirmedTxs]
    exact fun _ hid => hid
  · rw [h.transfers]
    exact fun _ td htd => ⟨td, htd, id⟩
  · rw [h.transferHistory]

/-- Where a block breaks off. -/
def Wallet2.brokenOff (env : Env) (w : Wallet2) : Option Transaction → Wallet2
  | none => w
  | some tx => w.settle env tx

/-- The first transaction that cannot be read, if there is one. -/
theorem exists_stop (we : WalletEnv) (acc : AccountBase) (txs : List (Option Transaction)) :
    (∀ t ∈ txs, Readable we acc t) ∨ ∃ before stop after, txs = before ++ stop :: after ∧
      (∀ t ∈ before, Readable we acc t) ∧ ¬ Readable we acc stop := by
  induction txs with
  | nil => exact .inl nofun
  | cons t rest ih =>
    by_cases ht : Readable we acc t
    · rcases ih with hall | ⟨before, stop, after, rfl, hbefore, hstop⟩
      · left
        intro t' ht'
        rcases List.mem_cons.1 ht' with rfl | hrest
        · exact ht
        · exact hall t' hrest
      · refine .inr ⟨t :: before, stop, after, rfl, ?_, hstop⟩
        intro t' ht'
        rcases List.mem_cons.1 ht' with rfl | hrest
        · exact ht
        · exact hbefore t' hrest
    · exact .inr ⟨[], t, rest, rfl, nofun, ht⟩

section

variable {we : WalletEnv} {height : Nat} {b : Block} {w : Wallet2}

/-- What can be read goes through. -/
theorem processParsed_readable (height : Nat) (b : Block) {txs : List (Option Transaction)}
    (hs : we.img.Sound we.env w.mAccount) (hi : w.Indexed)
    (hu : ∀ tx, some tx ∈ txs → UniformInputs tx) (hread : ∀ t ∈ txs, Readable we w.mAccount t) :
    ∃ w', processParsed we height b txs w = .ok () w' ∧ Grown w w' ∧ w'.mAccount = w.mAccount := by
  induction txs generalizing w with
  | nil => exact ⟨w, rfl, Grown.refl w, rfl⟩
  | cons t rest ih =>
    cases t with
    | none => exact (hread none List.mem_cons_self).elim
    | some tx =>
      obtain ⟨r, hr⟩ := hread (some tx) List.mem_cons_self
      have hscan := processNewTransaction_eq height b hs hi
        (hu tx List.mem_cons_self) hr
      have hacc : (scanTx we tx height b r w).mAccount = w.mAccount := scanTx_mAccount
      obtain ⟨w', hw', hgrown, hacc'⟩ := ih (w := scanTx we tx height b r w) (hacc ▸ hs)
        (scanTx_indexed hi) (fun tx' htx' => hu tx' (List.mem_cons_of_mem _ htx'))
        (hacc ▸ fun t' ht' => hread t' (List.mem_cons_of_mem _ ht'))
      refine ⟨w', ?_, scanTx_grown.trans hgrown, hacc'.trans hacc⟩
      unfold processParsed
      rw [bind_of_ok hscan]
      exact hw'

theorem processParsed_cons (tx : Transaction) (rest : List (Option Transaction)) :
    processParsed we height b (some tx :: rest) =
      processNewTransaction we tx height b >>= fun _ => processParsed we height b rest := rfl

/-- Transactions in two parts: the second begins where the first left the wallet. -/
theorem processParsed_append (txs txs' : List (Option Transaction)) :
    processParsed we height b (txs ++ txs') w =
      match processParsed we height b txs w with
      | .ok _ w' => processParsed we height b txs' w'
      | .error ex w' => .error ex w' := by
  induction txs generalizing w with
  | nil => rfl
  | cons t rest ih =>
    cases t with
    | none => rfl
    | some tx =>
      rw [List.cons_append, processParsed_cons, processParsed_cons, bind_apply, bind_apply]
      cases processNewTransaction we tx height b w with
      | error ex w' => rfl
      | ok _ w' => exact ih

/-- At a transaction that cannot be read the block breaks off. -/
theorem processParsed_stop (height : Nat) (b : Block) {stop : Option Transaction}
    (after : List (Option Transaction)) (h : ¬ Readable we w.mAccount stop) :
    ∃ ex, processParsed we height b (stop :: after) w =
      .error ex (w.brokenOff we.env stop) := by
  cases stop with
  | none => exact ⟨_, rfl⟩
  | some tx =>
    cases hread : readTx we w.mAccount tx with
    | ok r => exact (h ⟨r, hread⟩).elim
    | error ex =>
      refine ⟨ex, ?_⟩
      unfold processParsed
      exact bind_of_error (processNewTransaction_unread hread)

/-- Foreign transactions do nothing. -/
theorem processParsed_foreign (height : Nat) (b : Block) {txs : List (Option Transaction)}
    (hs : we.img.Sound we.env w.mAccount) (hi : w.Indexed)
    (hu : ∀ tx, some tx ∈ txs → UniformInputs tx) (hread : ∀ t ∈ txs, Readable we w.mAccount t)
    (hforeign : ∀ t ∈ txs, ForeignTx we w t) : processParsed we height b txs w = .ok () w := by
  induction txs with
  | nil => rfl
  | cons t rest ih =>
    cases t with
    | none => exact (hread none List.mem_cons_self).elim
    | some tx =>
      obtain ⟨r, hr⟩ := hread (some tx) List.mem_cons_self
      have hf : Foreign we w tx r := hforeign (some tx) List.mem_cons_self r hr
      have hscan := processNewTransaction_eq height b hs hi
        (hu tx List.mem_cons_self) hr
      rw [hf.scanTx_eq ((readTx_outs_nil hr).2 hf.brings)] at hscan
      unfold processParsed
      rw [bind_of_ok hscan]
      exact ih (fun tx' htx' => hu tx' (List.mem_cons_of_mem _ htx'))
        (fun t' ht' => hread t' (List.mem_cons_of_mem _ ht'))
        (fun t' ht' => hforeign t' (List.mem_cons_of_mem _ ht'))

/-- Transactions that leave the wallet as it was were all foreign. -/
theorem foreign_of_through {txs : List (Option Transaction)} {w' : Wallet2}
    (hs : we.img.Sound we.env w.mAccount) (hi : w.Indexed)
    (hu : ∀ tx, some tx ∈ txs → UniformInputs tx) (hread : ∀ t ∈ txs, Readable we w.mAccount t)
    (h : processParsed we height b txs w = .ok () w') (hback : Grown w' w) :
    ∀ t ∈ txs, ForeignTx we w t := by
  induction txs with
  | nil => exact nofun
  | cons t rest ih =>
    cases t with
    | none => exact (hread none List.mem_cons_self).elim
    | some tx =>
      obtain ⟨r, hr⟩ := hread (some tx) List.mem_cons_self
      have hscan := processNewTransaction_eq height b hs hi
        (hu tx List.mem_cons_self) hr
      have hacc : (scanTx we tx height b r w).mAccount = w.mAccount := scanTx_mAccount
      have hurest := fun tx' htx' => hu tx' (List.mem_cons_of_mem (some tx) htx')
      have hrest := fun t' ht' => hread t' (List.mem_cons_of_mem (some tx) ht')
      unfold processParsed at h
      rw [bind_of_ok hscan] at h
      have hs' : we.img.Sound we.env (scanTx we tx height b r w).mAccount := hacc ▸ hs
      obtain ⟨w₁, hw₁, hgrown, -⟩ := processParsed_readable height b hs' (scanTx_indexed hi) hurest
        (hacc ▸ hrest)
      rw [h] at hw₁
      cases hw₁
      -- what came after took nothing back, so this one did nothing
      have hf : Foreign we w tx r := foreign_of_grown hr (hgrown.trans hback)
      rw [hf.scanTx_eq ((readTx_outs_nil hr).2 hf.brings)] at h
      intro t' ht'
      rcases List.mem_cons.1 ht' with rfl | hin
      · intro r' hr'
        rw [hr] at hr'
        cases hr'
        exact hf
      · exact ih hurest hrest h t' hin

/-- A block that throws leaves the records as they were, and can be tried again,
exactly when it breaks off before anything of it was the wallet's. -/
theorem entry_all_or_nothing {txs : List Blob} {blId : Hash} (hs : we.img.Sound we.env w.mAccount)
    (hi : w.Indexed) (hu : ∀ tx, some tx ∈ entryTxs we.env b txs → UniformInputs tx) :
    (∀ ex w', processNewBlockchainEntry we b txs blId height w = .error ex w' →
      SameRecords w w' ∧ ∀ oIndexes,
        processNewBlockchainEntry { we with oIndexes } b txs blId height w' =
          processNewBlockchainEntry { we with oIndexes } b txs blId height w) ↔
    (height = w.mBlockchain.length → recentEnough w.mAccount b = true →
      StopsClean we w (entryTxs we.env b txs)) := by
  constructor
  · intro hall hheight hrecent before stop after htxs hbefore hstop
    have hubefore : ∀ tx, some tx ∈ before → UniformInputs tx :=
      fun tx htx => hu tx (htxs ▸ List.mem_append_left _ htx)
    obtain ⟨w₁, hw₁, -, hacc⟩ := processParsed_readable height b hs hi hubefore
      hbefore
    have hstop' : ¬ Readable we w₁.mAccount stop := hacc ▸ hstop
    obtain ⟨ex, hex⟩ := processParsed_stop height b after hstop'
    have hparsed : processParsed we height b (entryTxs we.env b txs) w =
        .error ex (w₁.brokenOff we.env stop) := by
      rw [htxs, processParsed_append, hw₁]
      exact hex
    have hsame := (hall _ _ (processNewBlockchainEntry_broken blId hheight hrecent
      hparsed)).1
    -- one of ours among the transactions before the stop would have left a record
    have hforeign : ∀ t ∈ before, ForeignTx we w t := by
      refine foreign_of_through hs hi hubefore hbefore hw₁ ?_
      cases stop with
      | none => exact hsame.grown
      | some tx => exact (settle_grown we.env tx w₁).trans hsame.grown
    refine ⟨hforeign, ?_⟩
    have hstill := processParsed_foreign height b hs hi hubefore hbefore hforeign
    rw [hw₁] at hstill
    cases hstill
    cases stop with
    | none => trivial
    | some tx =>
      -- the failing transaction is taken off the pending ones before its outputs are asked for
      have hpending : w.mUnconfirmedTxs.erase (getTransactionHash we.env tx) = w.mUnconfirmedTxs :=
        hsame.unconfirmedTxs
      show w.mUnconfirmedTxs[getTransactionHash we.env tx]? = none
      rw [← hpending, Std.ExtTreeMap.getElem?_erase_self]
  · intro hclean ex w' hthrown
    -- a wallet that is left exactly as it was reads the block again the same way
    suffices hw' : w' = w by
      subst hw'
      exact ⟨SameRecords.refl w', fun _ => rfl⟩
    by_cases hheight : height = w.mBlockchain.length
    · by_cases hrecent : recentEnough w.mAccount b = true
      · rcases exists_stop we w.mAccount (entryTxs we.env b txs) with
          hread | ⟨before, stop, after, htxs, hbefore, hstop⟩
        · obtain ⟨w₁, hw₁, -, -⟩ := processParsed_readable height b hs hi hu hread
          rw [processNewBlockchainEntry_through hheight hrecent hw₁] at hthrown
          cases hthrown
        · obtain ⟨hforeign, hpending⟩ := hclean hheight hrecent before stop after htxs hbefore hstop
          have hubefore : ∀ tx, some tx ∈ before → UniformInputs tx :=
            fun tx htx => hu tx (htxs ▸ List.mem_append_left _ htx)
          have hstill := processParsed_foreign height b hs hi hubefore hbefore
            hforeign
          obtain ⟨ex', hex'⟩ := processParsed_stop height b after hstop
          have hparsed : processParsed we height b (entryTxs we.env b txs) w =
              .error ex' (w.brokenOff we.env stop) := by
            rw [htxs, processParsed_append, hstill]
            exact hex'
          rw [processNewBlockchainEntry_broken blId hheight hrecent hparsed] at hthrown
          cases hthrown
          cases stop with
          | none => rfl
          | some tx => exact settle_of_none hpending
      · rw [processNewBlockchainEntry_old hheight hrecent] at hthrown
        cases hthrown
    · rw [processNewBlockchainEntry_misplaced hheight] at hthrown
      cases hthrown
      rfl

end

namespace Devnet

/-- A block of the main line with two payments to the purse. -/
def payday : Block := mainBlock 1

/-- The blobs of a block that pays the sample wallet twice. -/
def paydayTxs : List Blob := [[7, 1, 0, 1], [8, 2, 0, 1]]

/-- A daemon that answers for the first payment alone. -/
def halfAnswering (id : Hash) : RpcAnswer (List UInt64) :=
  if id = spendId 7 then .response .ok [0] else .none

/-- A daemon that is gone. -/
def silentDaemon (_ : Hash) : RpcAnswer (List UInt64) := .none

/-- The wallet after the block, whichever way it ended. -/
def afterPayday (oIndexes : Hash → RpcAnswer (List UInt64)) (w : Wallet2) : Wallet2 :=
  stateOf (processNewBlockchainEntry (walletEnv oIndexes) payday paydayTxs 2 1 w)

/-- The inputs of that block are of one sort each. -/
theorem payday_uniform (oIndexes : Hash → RpcAnswer (List UInt64)) :
    ∀ tx, some tx ∈ entryTxs (walletEnv oIndexes).env payday paydayTxs → UniformInputs tx := by
  intro tx htx
  rcases List.mem_cons.1 htx with h | htx
  · cases h
    exact .inr (by decide)
  · rcases List.mem_cons.1 htx with h | htx
    · cases h
      exact .inl nofun
    · rcases List.mem_cons.1 htx with h | htx
      · cases h
        exact .inl nofun
      · cases htx

end Devnet

/-- With no daemon to ask, the first payment stops the block before anything is
written. -/
theorem entry_all_or_nothing_silent :
    ∃ ex w', processNewBlockchainEntry (Devnet.walletEnv Devnet.silentDaemon) Devnet.payday
        Devnet.paydayTxs 2 1 Devnet.newPurse = .error ex w' ∧ SameRecords Devnet.newPurse w' := by
  have hstops : (match processNewBlockchainEntry (Devnet.walletEnv Devnet.silentDaemon)
        Devnet.payday Devnet.paydayTxs 2 1 Devnet.newPurse with
      | .ok _ _ => false
      | .error _ _ => true) = true := by
    decide +kernel
  have eval :
      readTx (Devnet.walletEnv Devnet.silentDaemon) Devnet.purse Devnet.payday.minerTx =
        .ok ⟨⟨0, [], 0⟩, []⟩ ∧
      readTx (Devnet.walletEnv Devnet.silentDaemon) Devnet.purse
        (Devnet.transferTx 7 1 0 [Devnet.toPurse 1]) =
        .error (.noConnectionToDaemon "get_o_indexes.bin") := by
    decide +kernel
  obtain ⟨ex, w', h⟩ : ∃ ex w', processNewBlockchainEntry (Devnet.walletEnv Devnet.silentDaemon)
      Devnet.payday Devnet.paydayTxs 2 1 Devnet.newPurse = .error ex w' := by
    split at hstops
    · cases hstops
    · next ex w' h => exact ⟨ex, w', h⟩
  refine ⟨ex, w', h, ((entry_all_or_nothing (Devnet.walletEnv_sound _ _) Devnet.newPurse_indexed
    (Devnet.payday_uniform _)).2 ?_ ex w' h).1⟩
  intro _ _ before stop after htxs hbefore hstop
  match before with
  | [] =>
    cases htxs
    exact (hstop ⟨_, eval.1⟩).elim
  | [t] =>
    cases htxs
    refine ⟨?_, Std.ExtTreeMap.getElem?_empty⟩
    intro t ht
    cases List.mem_singleton.1 ht
    intro r hr
    cases eval.1.symm.trans hr
    refine ⟨Std.ExtTreeMap.getElem?_empty, rfl, ?_, rfl⟩
    intro k hk
    cases hk
  | t₁ :: t₂ :: rest =>
    have htx : some (Devnet.transferTx 7 1 0 [Devnet.toPurse 1]) = t₂ :=
      (List.cons.inj (List.cons.inj htxs).2).1
    subst htx
    obtain ⟨r, hr⟩ := hbefore _ (List.mem_cons_of_mem _ List.mem_cons_self)
    cases eval.2.symm.trans hr

/-- The daemon answers for the first payment and is gone at the second: the
first stays, and the next try brings it again. -/
theorem entry_half_done :
    ∃ ex w', processNewBlockchainEntry (Devnet.walletEnv Devnet.halfAnswering) Devnet.payday
        Devnet.paydayTxs 2 1 Devnet.newPurse = .error ex w' ∧ ¬ SameRecords Devnet.newPurse w' ∧
      (Devnet.afterPayday Devnet.answering w').balance = 3 * Devnet.unit ∧
      (Devnet.afterPayday Devnet.answering Devnet.newPurse).balance = 2 * Devnet.unit := by
  have eval :
      (match processNewBlockchainEntry (Devnet.walletEnv Devnet.halfAnswering) Devnet.payday
          Devnet.paydayTxs 2 1 Devnet.newPurse with
        | .ok _ _ => false
        | .error _ w' => decide (w'.mTransfers.length = 1)) = true ∧
      (Devnet.afterPayday Devnet.answering (Devnet.afterPayday Devnet.halfAnswering
        Devnet.newPurse)).balance = 3 * Devnet.unit ∧
      (Devnet.afterPayday Devnet.answering Devnet.newPurse).balance = 2 * Devnet.unit := by
    decide +kernel
  obtain ⟨hrun, hagain, honce⟩ := eval
  unfold Devnet.afterPayday at hagain
  cases hres : processNewBlockchainEntry (Devnet.walletEnv Devnet.halfAnswering) Devnet.payday
      Devnet.paydayTxs 2 1 Devnet.newPurse with
  | ok _ w' =>
    rw [hres] at hrun
    cases hrun
  | error ex w' =>
    rw [hres] at hrun hagain
    refine ⟨ex, w', rfl, ?_, hagain, honce⟩
    intro hsame
    have hlen := of_decide_eq_true hrun
    rw [hsame.transfers] at hlen
    cases hlen

end DarknetSpace
