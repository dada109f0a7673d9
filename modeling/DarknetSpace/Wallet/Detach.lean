import DarknetSpace.Wallet.AllOrNothing

/-!
# Taking blocks back

As long as every key image is known for one output only (`Exact`), reading
blocks is easy to say: new outputs come behind the old ones, and an output is
spent once an input has its key image. `detach_blockchain` cuts all that comes
from the blocks it takes back, each container by the height its entries carry.
It does not look at what those blocks spent: a cut wallet is the one that has
read the lower blocks only exactly when none of the blocks taken back spent an
output from below.

`Tidy` says what a wallet has of the blocks it has read, and is kept by each of them.
Main result: `detach_undoes_reading`. It compares a wallet that has read a chain and was
cut with one that has read the lower blocks alone, for every chain and height; the flags
of outputs from below are the one thing that may differ.
-/

namespace DarknetSpace

open StateExn

/-! ## One output for a key image -/

/-- A key image is known exactly when an output has it, and leads there. -/
def Wallet2.Exact (w : Wallet2) : Prop :=
  ∀ (k : KeyImage) (i : Nat), w.mKeyImages[k]? = some i ↔
    ∃ td : TransferDetails, w.mTransfers[i]? = some td ∧ td.mKeyImage = k

/-- The key images of the transfers, in order. -/
def Wallet2.images (w : Wallet2) : List KeyImage := w.mTransfers.map TransferDetails.mKeyImage

theorem Wallet2.Exact.indexed {w : Wallet2} (h : w.Exact) : w.Indexed := fun k i hk => (h k i).1 hk

/-- The property reads the table and the images only. -/
theorem Wallet2.Exact.of_same {w w' : Wallet2} (h : w.Exact) (hk : w'.mKeyImages = w.mKeyImages)
    (ht : w'.images = w.images) : w'.Exact := by
  intro k i
  rw [hk, h k i]
  have hget : ∀ v : Wallet2, v.images[i]? = v.mTransfers[i]?.map TransferDetails.mKeyImage :=
    fun v => List.getElem?_map
  have hsame := hget w'
  rw [ht, hget w] at hsame
  constructor
  · rintro ⟨td, htd, rfl⟩
    rw [htd] at hsame
    obtain ⟨td', htd', himage⟩ := Option.map_eq_some_iff.1 hsame.symm
    exact ⟨td', htd', himage⟩
  · rintro ⟨td, htd, rfl⟩
    rw [htd] at hsame
    obtain ⟨td', htd', himage⟩ := Option.map_eq_some_iff.1 hsame
    exact ⟨td', htd', himage⟩

/-- The outputs say which key images are known. -/
theorem Wallet2.Exact.mKeyImages_eq {w w' : Wallet2} (h : w.Exact) (h' : w'.Exact)
    (ht : w'.images = w.images) : w'.mKeyImages = w.mKeyImages := by
  apply Std.ExtTreeMap.ext_getElem?
  intro k
  refine Option.ext fun i => ?_
  have hget : ∀ v : Wallet2, v.images[i]? = v.mTransfers[i]?.map TransferDetails.mKeyImage :=
    fun v => List.getElem?_map
  rw [h k i, h' k i, ← Option.map_eq_some_iff, ← Option.map_eq_some_iff, ← hget, ← hget, ht]

/-- No two transfers have one key image, as a key image has one index. -/
theorem Wallet2.Exact.nodup {w : Wallet2} (h : w.Exact) : w.images.Nodup := by
  rw [List.nodup_iff_getElem?_ne_getElem?]
  intro i j hij hj heq
  have hi : i < w.images.length := by omega
  obtain ⟨td, htd, himage⟩ := Option.map_eq_some_iff.1
    ((List.getElem?_map (f := TransferDetails.mKeyImage) (l := w.mTransfers)).symm.trans
      (List.getElem?_eq_getElem hi))
  have hsame := heq
  rw [List.getElem?_eq_getElem hi] at hsame
  obtain ⟨td', htd', himage'⟩ := Option.map_eq_some_iff.1
    ((List.getElem?_map (f := TransferDetails.mKeyImage) (l := w.mTransfers)).symm.trans hsame.symm)
  have h₁ := (h _ i).2 ⟨td, htd, himage⟩
  have h₂ := (h _ j).2 ⟨td', htd', himage'⟩
  rw [h₁] at h₂
  cases h₂
  exact Nat.lt_irrefl _ hij

/-- A transfer with a new key image keeps the table exact. -/
theorem addTransfer_exact {w : Wallet2} (h : w.Exact) {td : TransferDetails}
    (hfresh : td.mKeyImage ∉ w.images) : (w.addTransfer td).Exact := by
  intro k i
  show (w.mKeyImages.insert td.mKeyImage w.mTransfers.length)[k]? = some i ↔
    ∃ td', (w.mTransfers ++ [td])[i]? = some td' ∧ td'.mKeyImage = k
  have hold : ∀ td' : TransferDetails, w.mTransfers[i]? = some td' → td'.mKeyImage ≠ td.mKeyImage := by
    intro td' htd' heq
    exact hfresh (heq ▸ List.mem_map_of_mem (List.mem_of_getElem? htd'))
  by_cases hk : k = td.mKeyImage
  · subst hk
    rw [Std.ExtTreeMap.getElem?_insert_self]
    constructor
    · intro hi
      cases hi
      exact ⟨td, List.getElem?_concat_length, rfl⟩
    · rintro ⟨td', htd', himage⟩
      rcases Nat.lt_trichotomy i w.mTransfers.length with hlt | rfl | hgt
      · rw [List.getElem?_append_left hlt] at htd'
        exact absurd himage (hold td' htd')
      · rfl
      · rw [List.getElem?_eq_none (by rw [List.length_append, List.length_singleton]; omega)] at htd'
        cases htd'
  · rw [FinMap.getElem?_insert_ne hk, h k i]
    constructor
    · rintro ⟨td', htd', himage⟩
      exact ⟨td', by rw [List.getElem?_append_left (List.getElem?_eq_some_iff.1 htd').1, htd'], himage⟩
    · rintro ⟨td', htd', himage⟩
      by_cases hlt : i < w.mTransfers.length
      · rw [List.getElem?_append_left hlt] at htd'
        exact ⟨td', htd', himage⟩
      · rw [List.getElem?_append_right (by omega)] at htd'
        have htd := List.mem_singleton.1 (List.mem_of_getElem? htd')
        subst htd
        exact absurd himage.symm hk

theorem addTransfer_images (w : Wallet2) (td : TransferDetails) :
    (w.addTransfer td).images = w.images ++ [td.mKeyImage] :=
  List.map_append

/-- Transfers with new key images, by induction on them. -/
theorem foldl_addTransfer_exact {w : Wallet2} (h : w.Exact) {tds : List TransferDetails}
    (hfresh : (w.images ++ tds.map TransferDetails.mKeyImage).Nodup) :
    (tds.foldl Wallet2.addTransfer w).Exact := by
  induction tds generalizing w with
  | nil => exact h
  | cons td tds ih =>
    rw [List.map_cons, ← List.singleton_append, ← List.append_assoc] at hfresh
    refine ih (addTransfer_exact h ?_) ?_
    · intro hmem
      exact (List.nodup_append.1 (List.nodup_append.1 hfresh).1).2.2 _ hmem _
        (List.mem_singleton_self _) rfl
    · rw [addTransfer_images]
      exact hfresh

/-! ## Spending -/

/-- An output whose key image is among those is spent. -/
def TransferDetails.spendIf (ks : List KeyImage) (td : TransferDetails) : TransferDetails :=
  if td.mKeyImage ∈ ks then td.spend else td

@[simp] theorem spendIf_mKeyImage (ks : List KeyImage) (td : TransferDetails) :
    (td.spendIf ks).mKeyImage = td.mKeyImage := by
  unfold TransferDetails.spendIf
  split
  · rfl
  · rfl

@[simp] theorem spendIf_mBlockHeight (ks : List KeyImage) (td : TransferDetails) :
    (td.spendIf ks).mBlockHeight = td.mBlockHeight := by
  unfold TransferDetails.spendIf
  split
  · rfl
  · rfl

theorem spendIf_nil (td : TransferDetails) : td.spendIf [] = td := if_neg nofun

/-- Spending by two lists of key images, one after the other, is spending by both. -/
theorem spendIf_append (ks ks' : List KeyImage) (td : TransferDetails) :
    (td.spendIf ks).spendIf ks' = td.spendIf (ks ++ ks') := by
  unfold TransferDetails.spendIf
  by_cases hk : td.mKeyImage ∈ ks
  · rw [if_pos hk, if_pos (List.mem_append_left _ hk)]
    split
    · rfl
    · rfl
  · rw [if_neg hk]
    by_cases hk' : td.mKeyImage ∈ ks'
    · rw [if_pos hk', if_pos (List.mem_append_right _ hk')]
    · rw [if_neg hk', if_neg (by rw [List.mem_append]; tauto)]

/-- A transfer is left alone if it was spent before or its key image is not listed. -/
theorem spendIf_eq_self {ks : List KeyImage} {td : TransferDetails} :
    td.spendIf ks = td ↔ (td.mSpent = false → td.mKeyImage ∉ ks) := by
  unfold TransferDetails.spendIf
  by_cases hk : td.mKeyImage ∈ ks
  · rw [if_pos hk]
    cases hs : td.mSpent with
    | true => exact ⟨fun _ => nofun, fun _ => spend_of_spent hs⟩
    | false =>
      constructor
      · intro h
        have hspent : td.spend.mSpent = true := rfl
        rw [h, hs] at hspent
        cases hspent
      · intro h
        exact absurd hk (h rfl)
  · rw [if_neg hk]
    exact ⟨fun _ _ => hk, fun _ => rfl⟩

/-- What is done to the output behind a key image is done to the outputs with it. -/
theorem Wallet2.Exact.modify_eq {w : Wallet2} (h : w.Exact) {k : KeyImage} {i : Nat}
    (hk : w.mKeyImages[k]? = some i) (f : TransferDetails → TransferDetails) :
    w.mTransfers.modify i f = w.mTransfers.map fun td => if td.mKeyImage = k then f td else td := by
  apply List.ext_getElem?
  intro j
  rw [List.getElem?_map]
  cases htd : w.mTransfers[j]? with
  | none =>
    rw [List.getElem?_modify, htd]
    rfl
  | some td =>
    rw [getElem?_modify_of_some _ htd, Option.map_some]
    by_cases hij : i = j
    · subst hij
      obtain ⟨td', htd', himage⟩ := (h k i).1 hk
      rw [htd] at htd'
      cases htd'
      rw [if_pos rfl, if_pos himage]
    · have hne : td.mKeyImage ≠ k := by
        intro himage
        rw [(h k j).2 ⟨td, htd, himage⟩] at hk
        exact hij (Option.some.inj hk).symm
      rw [if_neg hij, if_neg hne]

/-- A key image that is not known is that of no output. -/
theorem Wallet2.Exact.not_mem {w : Wallet2} (h : w.Exact) {k : KeyImage}
    (hk : w.mKeyImages[k]? = none) {td : TransferDetails} (htd : td ∈ w.mTransfers) :
    td.mKeyImage ≠ k := by
  intro himage
  obtain ⟨i, hi⟩ := List.mem_iff_getElem?.1 htd
  rw [(h k i).2 ⟨td, hi, himage⟩] at hk
  cases hk

/-- With an exact table a key image marks its own transfer and no other. -/
theorem markSpent_mTransfers {w : Wallet2} (h : w.Exact) (k : KeyImage) :
    (w.markSpent k).mTransfers = w.mTransfers.map (TransferDetails.spendIf [k]) := by
  unfold Wallet2.markSpent
  cases hk : w.mKeyImages[k]? with
  | none =>
    simp only
    conv_lhs => rw [← List.map_id w.mTransfers]
    refine List.map_congr_left fun td htd => ?_
    rw [TransferDetails.spendIf, if_neg (by rw [List.mem_singleton]; exact h.not_mem hk htd)]
    rfl
  | some i =>
    simp only
    rw [h.modify_eq hk]
    refine List.map_congr_left fun td _ => ?_
    unfold TransferDetails.spendIf
    simp only [List.mem_singleton]

theorem map_spendIf_images (ks : List KeyImage) (tds : List TransferDetails) :
    (tds.map (TransferDetails.spendIf ks)).map TransferDetails.mKeyImage =
      tds.map TransferDetails.mKeyImage := by
  rw [List.map_map]
  exact List.map_congr_left fun td _ => spendIf_mKeyImage ks td

/-- Several key images, by induction on them. -/
theorem foldl_markSpent_exact {w : Wallet2} (h : w.Exact) (ks : List KeyImage) :
    (ks.foldl Wallet2.markSpent w).Exact ∧
      (ks.foldl Wallet2.markSpent w).mTransfers =
        w.mTransfers.map (TransferDetails.spendIf ks) := by
  induction ks generalizing w with
  | nil =>
    refine ⟨h, ?_⟩
    rw [List.foldl_nil, ← List.map_id w.mTransfers, List.map_map]
    exact List.map_congr_left fun td _ => (spendIf_nil td).symm
  | cons k ks ih =>
    have hmarked := markSpent_mTransfers h k
    have hexact : (w.markSpent k).Exact :=
      h.of_same (markSpent_mKeyImages w k) (by
        unfold Wallet2.images
        rw [hmarked, map_spendIf_images])
    obtain ⟨hex, htransfers⟩ := ih hexact
    refine ⟨hex, ?_⟩
    rw [List.foldl_cons, htransfers, hmarked, List.map_map]
    exact List.map_congr_left fun td _ => spendIf_append [k] ks td

section

variable {we : WalletEnv} {tx : Transaction} {height : Nat} {b : Block} {r : TxReading}
  {w : Wallet2}

/-- A transaction with new key images. -/
theorem scanTx_exact (b : Block) (h : w.Exact)
    (hfresh : (w.images ++ (newTransfers we w.mAccount tx height r).map
      TransferDetails.mKeyImage).Nodup) :
    (scanTx we tx height b r w).Exact ∧
      (scanTx we tx height b r w).mTransfers =
        (w.mTransfers ++ newTransfers we w.mAccount tx height r).map
          (TransferDetails.spendIf (inputImages tx.vin)) := by
  have hnew : (w.withNew we tx height r).Exact :=
    foldl_addTransfer_exact (w := w.settle we.env tx) h hfresh
  have htransfers : (w.withNew we tx height r).mTransfers =
      w.mTransfers ++ newTransfers we w.mAccount tx height r := by
    unfold Wallet2.withNew
    rw [foldl_addTransfer_eq]
    rfl
  obtain ⟨hex, hmarked⟩ := foldl_markSpent_exact hnew (inputImages tx.vin)
  rw [htransfers] at hmarked
  exact ⟨hex, hmarked⟩

end

/-! ## Reading block after block -/

/-- Transactions scanned one after the other. -/
inductive Scans (we : WalletEnv) (height : Nat) (b : Block) :
    Wallet2 → List Transaction → Wallet2 → Prop where
  | nil {w} : Scans we height b w [] w
  | cons {w w' tx txs r} (read : readTx we w.mAccount tx = .ok r)
      (rest : Scans we height b (scanTx we tx height b r w) txs w') :
      Scans we height b w (tx :: txs) w'

/-- A block as a wallet gets it, with what the daemon answers while it is read. -/
structure ServedBlock where
  b : Block
  txs : List Blob
  blId : Hash
  oIndexes : Hash → RpcAnswer (List UInt64)

/-- The environment in which the daemon answers for one block. -/
def WalletEnv.serving (we : WalletEnv) (s : ServedBlock) : WalletEnv :=
  { we with oIndexes := s.oIndexes }

/-- The transactions of a block a wallet looks at. -/
def ServedBlock.scanned (env : Env) (acc : AccountBase) (s : ServedBlock) : List Transaction :=
  if recentEnough acc s.b then (entryTxs env s.b s.txs).filterMap id else []

/-- Blocks one after the other, each on top. -/
def processBlocks (we : WalletEnv) : List ServedBlock → WalletM Unit
  | [] => pure ()
  | s :: rest => do
    let w ← get
    processNewBlockchainEntry (we.serving s) s.b s.txs s.blId w.mBlockchain.length
    processBlocks we rest

section

variable {we : WalletEnv} {height : Nat} {b : Block} {w w' : Wallet2}

/-- A block's transactions that were all read were scanned one after the other. -/
theorem processParsed_scans {txs : List (Option Transaction)}
    (hs : we.img.Sound we.env w.mAccount) (hi : w.Indexed)
    (hu : ∀ tx, some tx ∈ txs → UniformInputs tx)
    (h : processParsed we height b txs w = .ok () w') :
    Scans we height b w (txs.filterMap id) w' := by
  induction txs generalizing w with
  | nil =>
    cases h
    exact .nil
  | cons t rest ih =>
    cases t with
    | none => cases h
    | some tx =>
      rw [processParsed_cons] at h
      cases hread : readTx we w.mAccount tx with
      | error ex =>
        rw [bind_of_error (processNewTransaction_unread hread)] at h
        cases h
      | ok r =>
        rw [bind_of_ok (processNewTransaction_eq height b hs hi (hu tx List.mem_cons_self) hread)] at h
        have hacc : (scanTx we tx height b r w).mAccount = w.mAccount := scanTx_mAccount
        exact .cons hread (ih (hacc ▸ hs) (scanTx_indexed hi)
          (fun tx' htx' => hu tx' (List.mem_cons_of_mem _ htx')) h)

/-- A block that went through: its transactions are scanned and it is on top. -/
theorem processNewBlockchainEntry_scans {s : ServedBlock}
    (hs : we.img.Sound we.env w.mAccount) (hi : w.Indexed)
    (hu : ∀ tx, some tx ∈ entryTxs we.env s.b s.txs → UniformInputs tx)
    (h : processNewBlockchainEntry (we.serving s) s.b s.txs s.blId height w = .ok () w') :
    height = w.mBlockchain.length ∧ ∃ v, Scans (we.serving s) height s.b w
      (s.scanned we.env w.mAccount) v ∧ w' = v.pushBlock s.blId := by
  by_cases hheight : height = w.mBlockchain.length
  · refine ⟨hheight, ?_⟩
    unfold ServedBlock.scanned
    by_cases hrecent : recentEnough w.mAccount s.b = true
    · rw [if_pos hrecent]
      cases hparsed : processParsed (we.serving s) height s.b (entryTxs we.env s.b s.txs) w with
      | error ex v =>
        rw [processNewBlockchainEntry_broken _ hheight hrecent hparsed] at h
        cases h
      | ok _ v =>
        rw [processNewBlockchainEntry_through hheight hrecent hparsed] at h
        cases h
        exact ⟨v, processParsed_scans hs hi hu hparsed, rfl⟩
    · rw [if_neg hrecent]
      rw [processNewBlockchainEntry_old hheight hrecent] at h
      cases h
      exact ⟨w, .nil, rfl⟩
  · rw [processNewBlockchainEntry_misplaced hheight] at h
    cases h

/-- Blocks that were all taken: the first one was, then the others. -/
theorem processBlocks_cons_ok {s : ServedBlock} {rest : List ServedBlock}
    (h : processBlocks we (s :: rest) w = .ok () w') :
    ∃ v, processNewBlockchainEntry (we.serving s) s.b s.txs s.blId w.mBlockchain.length w = .ok () v ∧
      processBlocks we rest v = .ok () w' := by
  unfold processBlocks at h
  rw [bind_of_ok (get_apply w)] at h
  obtain ⟨_, v, hv, hrest⟩ := bind_eq_ok.1 h
  exact ⟨v, hv, hrest⟩

/-- Blocks that were all taken, in two parts. -/
theorem processBlocks_append_ok {blocks rest : List ServedBlock}
    (h : processBlocks we (blocks ++ rest) w = .ok () w') :
    ∃ v, processBlocks we blocks w = .ok () v ∧ processBlocks we rest v = .ok () w' := by
  induction blocks generalizing w with
  | nil => exact ⟨w, rfl, h⟩
  | cons s blocks ih =>
    obtain ⟨v, hv, hrest⟩ := processBlocks_cons_ok h
    obtain ⟨v', hv', hrest'⟩ := ih hrest
    refine ⟨v', ?_, hrest'⟩
    unfold processBlocks
    rw [bind_of_ok (get_apply w), bind_of_ok hv]
    exact hv'

end

/-! ## Cutting -/

section

variable {w : Wallet2} {height : Nat}

/-- Erasing the key images of the last transfers is possible when they are all known. -/
theorem eraseKeyImages_eq {tds : List TransferDetails}
    (hnodup : (tds.map TransferDetails.mKeyImage).Nodup)
    (hknown : ∀ td ∈ tds, w.mKeyImages.contains td.mKeyImage = true) :
    eraseKeyImages tds w = .ok () { w with
      mKeyImages := tds.foldl (fun m td => m.erase td.mKeyImage) w.mKeyImages } := by
  induction tds generalizing w with
  | nil => rfl
  | cons td rest ih =>
    have htd := hknown td List.mem_cons_self
    unfold eraseKeyImages
    rw [bind_of_ok (get_apply w), if_pos htd, bind_of_ok (set_apply ..)]
    rw [List.map_cons, List.nodup_cons] at hnodup
    refine ih (w := { w with mKeyImages := w.mKeyImages.erase td.mKeyImage }) hnodup.2 ?_
    intro td' htd'
    have hne : td'.mKeyImage ≠ td.mKeyImage := by
      intro heq
      exact hnodup.1 (heq ▸ List.mem_map_of_mem htd')
    have hold := hknown td' (List.mem_cons_of_mem _ htd')
    rw [Std.ExtTreeMap.contains_eq_isSome_getElem?] at hold ⊢
    rw [FinMap.getElem?_erase_ne hne]
    exact hold

/-- What the table says after the erasures. -/
theorem getElem?_foldl_erase {tds : List TransferDetails} {m : Map KeyImage Nat} {k : KeyImage} :
    (tds.foldl (fun m td => m.erase td.mKeyImage) m)[k]? =
      if k ∈ tds.map TransferDetails.mKeyImage then none else m[k]? := by
  induction tds generalizing m with
  | nil => rfl
  | cons td rest ih =>
    rw [List.foldl_cons, ih, List.map_cons]
    by_cases hk : k = td.mKeyImage
    · subst hk
      rw [Std.ExtTreeMap.getElem?_erase_self, if_pos List.mem_cons_self, ite_self]
    · rw [FinMap.getElem?_erase_ne hk]
      simp only [List.mem_cons, hk, false_or]

/-- The wallet `detach_blockchain` leaves. -/
def Wallet2.cut (height : Nat) (w : Wallet2) : Wallet2 :=
  let kept := w.mTransfers.takeWhile fun td => decide (td.mBlockHeight < height)
  { w with
    mTransfers := kept
    mKeyImages := (w.mTransfers.drop kept.length).foldl (fun m td => m.erase td.mKeyImage) w.mKeyImages
    mBlockchain := w.mBlockchain.take height
    mLocalBcHeight := w.mLocalBcHeight - UInt64.ofNat (w.mBlockchain.length - height)
    mPayments := w.mPayments.filter fun p => ¬ height ≤ p.2.mBlockHeight
    mTransferHistory := w.mTransferHistory.takeWhile fun wti => decide (wti.height.toNat < height)
    mUnconfirmedInTransfers := ∅ }

/-- With one output for a key image nothing can go wrong. -/
theorem detachBlockchain_eq (h : w.Exact) (hle : height ≤ w.mBlockchain.length) :
    detachBlockchain height w = .ok () (w.cut height) := by
  unfold detachBlockchain
  rw [bind_of_ok (get_apply w)]
  have hsub := (List.drop_sublist
    (w.mTransfers.takeWhile fun td => decide (td.mBlockHeight < height)).length w.mTransfers)
  have herase := eraseKeyImages_eq (w := w) ((hsub.map TransferDetails.mKeyImage).nodup h.nodup) (by
    intro td htd
    obtain ⟨i, hi⟩ := List.mem_iff_getElem?.1 (hsub.mem htd)
    rw [Std.ExtTreeMap.contains_eq_isSome_getElem?, (h _ i).2 ⟨td, hi, rfl⟩]
    rfl)
  rw [bind_of_ok herase, if_neg (by omega)]
  rfl

/-- Cutting the transfers off together with their key images keeps the table exact. -/
theorem cut_exact (h : w.Exact) : (w.cut height).Exact := by
  intro k i
  have hsplit : w.mTransfers = (w.cut height).mTransfers ++
      w.mTransfers.drop (w.cut height).mTransfers.length := by
    have hkept : (w.cut height).mTransfers = w.mTransfers.take (w.cut height).mTransfers.length :=
      List.prefix_iff_eq_take.1 (List.takeWhile_prefix _)
    have hboth := (List.take_append_drop (w.cut height).mTransfers.length w.mTransfers).symm
    rwa [← hkept] at hboth
  have hnodup := h.nodup
  unfold Wallet2.images at hnodup
  rw [hsplit, List.map_append] at hnodup
  show (List.foldl _ _ _)[k]? = some i ↔ _
  rw [getElem?_foldl_erase]
  constructor
  · intro hi
    split at hi
    · cases hi
    · next hk =>
      obtain ⟨td, htd, himage⟩ := (h k i).1 hi
      refine ⟨td, ?_, himage⟩
      rw [hsplit] at htd
      by_cases hlt : i < (w.cut height).mTransfers.length
      · rwa [List.getElem?_append_left hlt] at htd
      · rw [List.getElem?_append_right (by omega)] at htd
        exact absurd (himage ▸ List.mem_map_of_mem (List.mem_of_getElem? htd)) hk
  · rintro ⟨td, htd, rfl⟩
    have hlt := (List.getElem?_eq_some_iff.1 htd).1
    rw [if_neg]
    · refine (h _ i).2 ⟨td, ?_, rfl⟩
      rw [hsplit, List.getElem?_append_left hlt]
      exact htd
    · intro hmem
      exact (List.nodup_append.1 hnodup).2.2 _ (List.mem_map_of_mem (List.mem_of_getElem? htd)) _
        hmem rfl

end

/-! ## What blocks add -/

/-- The one-time key of an output. -/
def TransferDetails.outKey (td : TransferDetails) : Option PublicKey :=
  td.mTx.vout[td.mInternalOutputIndex]?.bind TxOut.key?

/-- The key image of an output is that of its key. -/
def TransferDetails.Owned (we : WalletEnv) (acc : AccountBase) (td : TransferDetails) : Prop :=
  ∃ txPubKey key, we.img.generateKeyImageHelper acc txPubKey td.mInternalOutputIndex =
    some (key, td.mKeyImage) ∧ td.outKey = some key

/-- The one-time keys of the transfers. -/
def Wallet2.keys (w : Wallet2) : List (Option PublicKey) :=
  w.mTransfers.map TransferDetails.outKey

/-- The one-time keys of the outputs a transaction brings the account. -/
def txKeys (we : WalletEnv) (acc : AccountBase) (tx : Transaction) : List (Option PublicKey) :=
  match readTx we acc tx with
  | .ok r => r.outs.map fun o => tx.vout[o]?.bind TxOut.key?
  | .error _ => []

/-- The one-time keys of the outputs a block brings the account. -/
def ServedBlock.keys (we : WalletEnv) (acc : AccountBase) (s : ServedBlock) :
    List (Option PublicKey) :=
  (s.scanned we.env acc).flatMap (txKeys (we.serving s) acc)

/-- The key images of the inputs a wallet sees. -/
def ServedBlock.spends (we : WalletEnv) (acc : AccountBase) (s : ServedBlock) : List KeyImage :=
  (s.scanned we.env acc).flatMap fun tx => inputImages tx.vin

/-- A wallet of the account with one output for a key image and nothing pending. -/
structure Tidy (we : WalletEnv) (acc : AccountBase) (w : Wallet2) : Prop where
  account : w.mAccount = acc
  pending : w.mUnconfirmedTxs = ∅
  exact : w.Exact
  owned : ∀ td ∈ w.mTransfers, td.Owned we acc

/-- `w` has read on from `v`: what is new comes from heights in between, and the
outputs that were there have been spent by `ks`. -/
structure ReadOn (low high : Nat) (v w : Wallet2) (ks : List KeyImage) : Prop where
  blockchain : ∃ ids, w.mBlockchain = v.mBlockchain ++ ids ∧
    w.mLocalBcHeight = v.mLocalBcHeight + UInt64.ofNat ids.length
  transfers : ∃ new, w.mTransfers = v.mTransfers.map (TransferDetails.spendIf ks) ++ new ∧
    ∀ td ∈ new, low ≤ td.mBlockHeight ∧ td.mBlockHeight < high
  payments : ∃ new, w.mPayments = new + v.mPayments ∧
    ∀ p ∈ new, low ≤ p.2.mBlockHeight ∧ p.2.mBlockHeight < high
  history : ∃ new, w.mTransferHistory = v.mTransferHistory ++ new ∧
    ∀ wti ∈ new, low ≤ wti.height.toNat ∧ wti.height.toNat < high

/-- A wallet that has read nothing on. -/
theorem ReadOn.refl (low high : Nat) (w : Wallet2) : ReadOn low high w w [] where
  blockchain := ⟨[], (List.append_nil _).symm, (UInt64.add_zero _).symm⟩
  transfers := by
    refine ⟨[], ?_, nofun⟩
    rw [List.append_nil]
    conv_lhs => rw [← List.map_id w.mTransfers]
    exact List.map_congr_left fun td _ => (spendIf_nil td).symm
  payments := ⟨0, (Multiset.zero_add _).symm, fun p hp => absurd hp (Multiset.notMem_zero p)⟩
  history := ⟨[], (List.append_nil _).symm, nofun⟩

/-- What was read below one height was read below a larger one. -/
theorem ReadOn.mono {low high high' : Nat} {v w : Wallet2} {ks : List KeyImage}
    (h : ReadOn low high v w ks) (hle : high ≤ high') : ReadOn low high' v w ks := by
  obtain ⟨hchain, ⟨new, hnew, hn⟩, ⟨newp, hnewp, hp⟩, ⟨newh, hnewh, hh⟩⟩ := h
  refine ⟨hchain, ⟨new, hnew, ?_⟩, ⟨newp, hnewp, ?_⟩, ⟨newh, hnewh, ?_⟩⟩
  · exact fun td htd => ⟨(hn td htd).1, Nat.lt_of_lt_of_le (hn td htd).2 hle⟩
  · exact fun p hp' => ⟨(hp p hp').1, Nat.lt_of_lt_of_le (hp p hp').2 hle⟩
  · exact fun x hx => ⟨(hh x hx).1, Nat.lt_of_lt_of_le (hh x hx).2 hle⟩

/-- A payment is noted at the height of its block. -/
theorem notedPayments_height {env : Env} {tx : Transaction} {height : Nat} {got spent : UInt64}
    {p : Hash × PaymentDetails} (h : p ∈ notedPayments env tx height got spent) :
    p.2.mBlockHeight = height := by
  unfold notedPayments at h
  cases hid : getPaymentIdFromTxExtra env tx with
  | none =>
    rw [hid] at h
    exact absurd h (Multiset.notMem_zero p)
  | some paymentId =>
    rw [hid] at h
    simp only at h
    generalize (if spent < got then got - spent else 0) = received at h
    split at h
    · rw [Multiset.mem_singleton.1 h]
    · exact absurd h (Multiset.notMem_zero p)

/-- The history's line has the height it is prepared with. -/
theorem prepareWti_height (env : Env) (height timestamp : UInt64) (tx : Transaction)
    (amount : UInt64) (mtd : MoneyTransfer2Details) :
    (prepareWti env height timestamp tx amount mtd).1.height = height := by
  unfold prepareWti
  simp only
  split
  · rfl
  · rfl

/-- The history's line of a transaction has the height of its block. -/
theorem notedTransfers_height {env : Env} {b : Block} {tx : Transaction} {got spent : UInt64}
    {mtd : MoneyTransfer2Details} {recipient : Blob × Blob} {wti : WalletTransferInfo}
    (h : wti ∈ notedTransfers env b tx got spent mtd recipient) : wti.height = getBlockHeight b := by
  have hentry : ∀ amount isIncome who,
      (historyEntry env b tx amount mtd isIncome who).height = getBlockHeight b :=
    fun amount _ _ => prepareWti_height env (getBlockHeight b) b.timestamp tx amount mtd
  unfold notedTransfers at h
  split at h
  · split at h
    · rw [List.mem_singleton.1 h]
      exact hentry _ _ _
    · rcases List.mem_cons.1 h with rfl | h
      · exact hentry _ _ _
      · rw [List.mem_singleton.1 h]
        exact hentry _ _ _
  · split at h
    · rw [List.mem_singleton.1 h]
      exact hentry _ _ _
    · cases h

section

variable {we : WalletEnv} {acc : AccountBase}

/-- Different keys, different key images. -/
theorem images_nodup (hs : we.img.Sound we.env acc) {tds : List TransferDetails}
    (howned : ∀ td ∈ tds, td.Owned we acc) (hkeys : (tds.map TransferDetails.outKey).Nodup) :
    (tds.map TransferDetails.mKeyImage).Nodup := by
  rw [List.Nodup, List.pairwise_map] at hkeys ⊢
  refine hkeys.imp_of_mem ?_
  intro td td' htd htd' hne himage
  obtain ⟨_, key, himg, hkey⟩ := howned td htd
  obtain ⟨_, key', himg', hkey'⟩ := howned td' htd'
  have hsame := (hs.oneImage himg himg').1 himage
  rw [hkey, hkey', hsame] at hne
  exact hne rfl

variable {tx : Transaction} {height : Nat} {b : Block} {r : TxReading} {w : Wallet2}

theorem newTransfers_keys (height : Nat) (hread : readTx we acc tx = .ok r) :
    (newTransfers we acc tx height r).map TransferDetails.outKey = txKeys we acc tx := by
  unfold newTransfers txKeys
  rw [hread, List.map_map]
  rfl

/-- The new transfers are outputs of the account. -/
theorem newTransfers_owned (hs : we.img.Sound we.env acc) (hread : readTx we acc tx = .ok r) :
    ∀ td ∈ newTransfers we acc tx height r, td.Owned we acc := by
  intro td htd
  obtain ⟨o, ho, rfl⟩ := List.mem_map.1 htd
  obtain ⟨amount, key, attr, hout, hmine⟩ := readTx_out hread ho
  obtain ⟨image, himage⟩ := hs.finds _ _ _ hmine
  refine ⟨r.txPubKey, key, ?_, ?_⟩
  · unfold newTransfer
    rw [himage]
    rfl
  · show tx.vout[o]?.bind TxOut.key? = some key
    rw [hout]
    rfl

theorem spendIf_outKey (ks : List KeyImage) (td : TransferDetails) :
    (td.spendIf ks).outKey = td.outKey := by
  unfold TransferDetails.spendIf
  split
  · rfl
  · rfl

theorem spendIf_owned {ks : List KeyImage} {td : TransferDetails} (h : td.Owned we acc) :
    (td.spendIf ks).Owned we acc := by
  unfold TransferDetails.spendIf
  split
  · exact h
  · exact h

/-- One transaction with new keys. -/
theorem Tidy.scanTx (height : Nat) (b : Block) (h : Tidy we acc w) (hs : we.img.Sound we.env acc)
    (hread : readTx we w.mAccount tx = .ok r) (hkeys : (w.keys ++ txKeys we acc tx).Nodup) :
    Tidy we acc (scanTx we tx height b r w) ∧
      (DarknetSpace.scanTx we tx height b r w).keys = w.keys ++ txKeys we acc tx ∧
      (DarknetSpace.scanTx we tx height b r w).mTransfers =
        (w.mTransfers ++ newTransfers we acc tx height r).map
          (TransferDetails.spendIf (inputImages tx.vin)) := by
  rw [h.account] at hread
  have hnew := newTransfers_keys height hread
  have howned : ∀ td ∈ w.mTransfers ++ newTransfers we acc tx height r, td.Owned we acc := by
    intro td htd
    rcases List.mem_append.1 htd with htd | htd
    · exact h.owned td htd
    · exact newTransfers_owned hs hread td htd
  have himages := images_nodup hs howned (by rw [List.map_append, hnew]; exact hkeys)
  rw [List.map_append] at himages
  obtain ⟨hexact, htransfers⟩ := scanTx_exact b h.exact (h.account ▸ himages)
  rw [h.account] at htransfers
  refine ⟨⟨scanTx_mAccount.trans h.account, ?_, hexact, ?_⟩, ?_, htransfers⟩
  · rw [scanTx_mUnconfirmedTxs, h.pending]
    exact FinMap.erase_of_none Std.ExtTreeMap.getElem?_empty
  · rw [htransfers]
    intro td htd
    obtain ⟨td', htd', rfl⟩ := List.mem_map.1 htd
    exact spendIf_owned (howned td' htd')
  · unfold Wallet2.keys
    rw [htransfers, List.map_map, ← hnew, ← List.map_append]
    exact List.map_congr_left fun td _ => spendIf_outKey _ td

/-- One more transaction, of a height in the range. -/
theorem ReadOn.scanTx {low high : Nat} {v : Wallet2} {ks : List KeyImage}
    (h : ReadOn low high v w ks) (hlow : low ≤ height) (hhigh : height < high)
    (hplaced : (getBlockHeight b).toNat = height)
    (htransfers : (scanTx we tx height b r w).mTransfers =
      (w.mTransfers ++ newTransfers we acc tx height r).map
        (TransferDetails.spendIf (inputImages tx.vin))) :
    ReadOn low high v (DarknetSpace.scanTx we tx height b r w) (ks ++ inputImages tx.vin) := by
  obtain ⟨⟨ids, hids, hlocal⟩, ⟨new, hnew, hn⟩, ⟨newp, hnewp, hp⟩, ⟨newh, hnewh, hh⟩⟩ := h
  obtain ⟨paid, hpaid, hpaidAt⟩ : ∃ paid,
      (DarknetSpace.scanTx we tx height b r w).mPayments = paid + w.mPayments ∧
      ∀ p ∈ paid, p.2.mBlockHeight = height :=
    ⟨_, scanTx_mPayments, fun _ hp => notedPayments_height hp⟩
  obtain ⟨told, htold, htoldAt⟩ : ∃ told,
      (DarknetSpace.scanTx we tx height b r w).mTransferHistory = w.mTransferHistory ++ told ∧
      ∀ wti ∈ told, wti.height = getBlockHeight b :=
    ⟨_, scanTx_mTransferHistory, fun _ hwti => notedTransfers_height hwti⟩
  refine ⟨⟨ids, scanTx_mBlockchain.trans hids, scanTx_mLocalBcHeight.trans hlocal⟩,
    ⟨(new ++ newTransfers we acc tx height r).map (TransferDetails.spendIf (inputImages tx.vin)),
      ?_, ?_⟩, ⟨paid + newp, ?_, ?_⟩, ⟨newh ++ told, ?_, ?_⟩⟩
  · rw [htransfers, hnew, List.append_assoc, List.map_append, List.map_map]
    congr 1
    exact List.map_congr_left fun td _ => spendIf_append ks _ td
  · intro td htd
    obtain ⟨td', htd', rfl⟩ := List.mem_map.1 htd
    rw [spendIf_mBlockHeight]
    rcases List.mem_append.1 htd' with hold | hadded
    · exact hn td' hold
    · obtain ⟨o, -, rfl⟩ := List.mem_map.1 hadded
      exact ⟨hlow, hhigh⟩
  · rw [hpaid, hnewp, Multiset.add_assoc]
  · intro p hp'
    rcases Multiset.mem_add.1 hp' with hadded | hold
    · rw [hpaidAt p hadded]
      exact ⟨hlow, hhigh⟩
    · exact hp p hold
  · rw [htold, hnewh, List.append_assoc]
  · intro wti hwti
    rcases List.mem_append.1 hwti with hold | hadded
    · exact hh wti hold
    · rw [htoldAt wti hadded, hplaced]
      exact ⟨hlow, hhigh⟩

end

section

variable {we : WalletEnv} {acc : AccountBase} {w w' : Wallet2}

/-- The transactions of a block, by induction on them. -/
theorem Tidy.scans {low high height : Nat} {b : Block} {v : Wallet2} {ks : List KeyImage}
    {txs : List Transaction} (hscans : Scans we height b w txs w') (h : Tidy we acc w)
    (hs : we.img.Sound we.env acc) (hkeys : (w.keys ++ txs.flatMap (txKeys we acc)).Nodup)
    (hon : ReadOn low high v w ks) (hlow : low ≤ height) (hhigh : height < high)
    (hplaced : (getBlockHeight b).toNat = height) :
    Tidy we acc w' ∧ w'.keys = w.keys ++ txs.flatMap (txKeys we acc) ∧
      w'.mBlockchain = w.mBlockchain ∧
      ReadOn low high v w' (ks ++ txs.flatMap fun tx => inputImages tx.vin) := by
  induction hscans generalizing ks with
  | nil =>
    refine ⟨h, (List.append_nil _).symm, rfl, ?_⟩
    rw [List.flatMap_nil, List.append_nil]
    exact hon
  | cons read rest ih =>
    rw [List.flatMap_cons, ← List.append_assoc] at hkeys
    obtain ⟨htidy, hkeys', htransfers⟩ := h.scanTx height b hs read
      (List.nodup_append.1 hkeys).1
    obtain ⟨htidy', hkeys'', hchain, hon'⟩ := ih htidy (by rw [hkeys']; exact hkeys)
      (hon.scanTx hlow hhigh hplaced htransfers)
    refine ⟨htidy', ?_, hchain.trans scanTx_mBlockchain, ?_⟩
    · rw [hkeys'', hkeys', List.flatMap_cons, List.append_assoc]
    · rw [List.flatMap_cons, ← List.append_assoc]
      exact hon'

theorem Tidy.serving {s : ServedBlock} : Tidy (we.serving s) acc w ↔ Tidy we acc w :=
  ⟨fun h => ⟨h.account, h.pending, h.exact, h.owned⟩, fun h => ⟨h.account, h.pending, h.exact, h.owned⟩⟩

/-- The id of the block goes to the end. -/
theorem ReadOn.pushBlock {low high : Nat} {v : Wallet2} {ks : List KeyImage}
    (h : ReadOn low high v w ks) (blId : Hash) : ReadOn low high v (w.pushBlock blId) ks := by
  obtain ⟨⟨ids, hids, hlocal⟩, htransfers, hpayments, hhistory⟩ := h
  refine ⟨⟨ids ++ [blId], ?_, ?_⟩, htransfers, hpayments, hhistory⟩
  · show w.mBlockchain ++ [blId] = _
    rw [hids, List.append_assoc]
  · show w.mLocalBcHeight + 1 = _
    rw [hlocal, List.length_append, List.length_singleton, UInt64.add_assoc, UInt64.ofNat_add]
    rfl

/-- Blocks with new keys, one after the other. -/
theorem Tidy.processBlocks (low : Nat) {v : Wallet2} {ks : List KeyImage}
    {blocks : List ServedBlock} (h : Tidy we acc w) (hs : we.img.Sound we.env acc)
    (hu : ∀ s ∈ blocks, ∀ tx, some tx ∈ entryTxs we.env s.b s.txs → UniformInputs tx)
    (hplaced : ∀ i s, blocks[i]? = some s → (getBlockHeight s.b).toNat = w.mBlockchain.length + i)
    (hkeys : (w.keys ++ blocks.flatMap (ServedBlock.keys we acc)).Nodup)
    (hlow : low ≤ w.mBlockchain.length) (hon : ReadOn low w.mBlockchain.length v w ks)
    (hrun : processBlocks we blocks w = .ok () w') :
    Tidy we acc w' ∧ w'.keys = w.keys ++ blocks.flatMap (ServedBlock.keys we acc) ∧
      w'.mBlockchain.length = w.mBlockchain.length + blocks.length ∧
      ReadOn low w'.mBlockchain.length v w'
        (ks ++ blocks.flatMap (ServedBlock.spends we acc)) := by
  induction blocks generalizing w ks with
  | nil =>
    cases hrun
    refine ⟨h, (List.append_nil _).symm, rfl, ?_⟩
    rw [List.flatMap_nil, List.append_nil]
    exact hon
  | cons s rest ih =>
    obtain ⟨w₁, hw₁, hrest⟩ := processBlocks_cons_ok hrun
    -- one block: its transactions are scanned, then its id is appended
    obtain ⟨-, u, hscans, rfl⟩ := processNewBlockchainEntry_scans (h.account ▸ hs) h.exact.indexed
      (hu s List.mem_cons_self) hw₁
    rw [h.account] at hscans
    have hat := hplaced 0 s rfl
    rw [List.flatMap_cons, ← List.append_assoc] at hkeys
    obtain ⟨htidy, hkeys', hchain, hon'⟩ := ((Tidy.serving (s := s)).2 h).scans hscans hs
      (List.nodup_append.1 hkeys).1 (hon.mono (Nat.le_succ _)) hlow (Nat.lt_succ_self _) hat
    have hlen : (u.pushBlock s.blId).mBlockchain.length = w.mBlockchain.length + 1 := by
      show (u.mBlockchain ++ [s.blId]).length = _
      rw [List.length_append, List.length_singleton, hchain]
    have htidy' : Tidy we acc (u.pushBlock s.blId) := by
      have := Tidy.serving.1 htidy
      exact ⟨this.account, this.pending, this.exact, this.owned⟩
    obtain ⟨hdone, hkeys'', hlen', hon''⟩ := ih (w := u.pushBlock s.blId) htidy'
      (fun s' hs' => hu s' (List.mem_cons_of_mem _ hs'))
      (fun i s' hs' => by
        rw [hlen, hplaced (i + 1) s' hs']
        omega)
      (by
        show (u.keys ++ _).Nodup
        rw [hkeys']
        exact hkeys)
      (by omega) (by rw [hlen]; exact hon'.pushBlock s.blId) hrest
    refine ⟨hdone, ?_, ?_, ?_⟩
    · rw [hkeys'']
      show u.keys ++ _ = _
      rw [hkeys', List.flatMap_cons, List.append_assoc]
      rfl
    · rw [hlen', hlen, List.length_cons]
      omega
    · rw [List.flatMap_cons, ← List.append_assoc]
      exact hon''

end

/-! ## The cut wallet -/

theorem takeWhile_split {α : Type} {p : α → Bool} {l l' : List α} (h : ∀ x ∈ l, p x = true)
    (h' : ∀ x ∈ l', p x = false) : (l ++ l').takeWhile p = l := by
  rw [List.takeWhile_append_of_pos h]
  cases l' with
  | nil => exact List.append_nil l
  | cons x rest => rw [List.takeWhile_cons, h' x List.mem_cons_self, if_neg nofun, List.append_nil]

/-- A wallet as made has nothing to be untidy. -/
theorem fresh_tidy (we : WalletEnv) (acc : AccountBase) (g : Hash) :
    Tidy we acc (.fresh acc g) := by
  refine ⟨rfl, rfl, ?_, nofun⟩
  intro k i
  have hnone : (Wallet2.fresh acc g).mKeyImages[k]? = none := Std.ExtTreeMap.getElem?_empty
  rw [hnone]
  constructor
  · exact nofun
  · rintro ⟨td, htd, -⟩
    cases htd

/-- All that is noted comes from below a height. -/
structure Wallet2.Below (height : Nat) (w : Wallet2) : Prop where
  transfers : ∀ td ∈ w.mTransfers, td.mBlockHeight < height
  payments : ∀ p ∈ w.mPayments, p.2.mBlockHeight < height
  history : ∀ wti ∈ w.mTransferHistory, wti.height.toNat < height

/-- What was read below a height has no larger height. -/
theorem ReadOn.below {low high : Nat} {acc : AccountBase} {g : Hash} {w : Wallet2}
    {ks : List KeyImage} (h : ReadOn low high (.fresh acc g) w ks) : w.Below high := by
  obtain ⟨-, ⟨new, hnew, hn⟩, ⟨newp, hnewp, hp⟩, ⟨newh, hnewh, hh⟩⟩ := h
  refine ⟨?_, ?_, ?_⟩
  · rw [hnew]
    exact fun td htd => (hn td htd).2
  · rw [hnewp]
    intro p hp'
    rcases Multiset.mem_add.1 hp' with hnew | hold
    · exact (hp p hnew).2
    · exact absurd hold (Multiset.notMem_zero p)
  · rw [hnewh]
    exact fun wti hwti => (hh wti hwti).2

section

variable {v w : Wallet2} {ks : List KeyImage} {height : Nat}

/-- Cutting off what was read on leaves the transfers of before, some of them spent since. -/
theorem ReadOn.cut_mTransfers {high : Nat} (h : ReadOn height high v w ks) (hv : v.Below height) :
    (w.cut height).mTransfers = v.mTransfers.map (TransferDetails.spendIf ks) := by
  obtain ⟨new, hnew, hn⟩ := h.transfers
  show w.mTransfers.takeWhile _ = _
  rw [hnew]
  refine takeWhile_split ?_ ?_
  · intro td htd
    obtain ⟨td', htd', rfl⟩ := List.mem_map.1 htd
    rw [spendIf_mBlockHeight]
    exact decide_eq_true (hv.transfers td' htd')
  · intro td htd
    have := (hn td htd).1
    exact decide_eq_false (by omega)

/-- It leaves the payments of before. -/
theorem ReadOn.cut_mPayments {high : Nat} (h : ReadOn height high v w ks) (hv : v.Below height) :
    (w.cut height).mPayments = v.mPayments := by
  obtain ⟨new, hnew, hn⟩ := h.payments
  show w.mPayments.filter _ = _
  rw [hnew, Multiset.filter_add, Multiset.filter_eq_nil.2, Multiset.zero_add,
    Multiset.filter_eq_self]
  · intro p hp
    have := hv.payments p hp
    omega
  · intro p hp
    have := (hn p hp).1
    omega

/-- It leaves the history of before. -/
theorem ReadOn.cut_mTransferHistory {high : Nat} (h : ReadOn height high v w ks)
    (hv : v.Below height) : (w.cut height).mTransferHistory = v.mTransferHistory := by
  obtain ⟨new, hnew, hn⟩ := h.history
  show w.mTransferHistory.takeWhile _ = _
  rw [hnew]
  refine takeWhile_split ?_ ?_
  · intro wti hwti
    exact decide_eq_true (hv.history wti hwti)
  · intro wti hwti
    have := (hn wti hwti).1
    exact decide_eq_false (by omega)

/-- It leaves the chain of before. -/
theorem ReadOn.cut_chain {high : Nat} (h : ReadOn height high v w ks)
    (hlen : v.mBlockchain.length = height) : (w.cut height).mBlockchain = v.mBlockchain ∧
      (w.cut height).mLocalBcHeight = v.mLocalBcHeight := by
  obtain ⟨ids, hids, hlocal⟩ := h.blockchain
  constructor
  · show w.mBlockchain.take height = _
    rw [hids, ← hlen, List.take_left]
  · show w.mLocalBcHeight - UInt64.ofNat (w.mBlockchain.length - height) = _
    rw [hids, hlocal, List.length_append, hlen, Nat.add_sub_cancel_left, UInt64.add_sub_cancel]

/-- The cut wallet knows the key images `v` knows. -/
theorem ReadOn.cut_mKeyImages {high : Nat} (h : ReadOn height high v w ks) (hv : v.Below height)
    (hexact : v.Exact) (hexact' : w.Exact) : (w.cut height).mKeyImages = v.mKeyImages := by
  refine hexact.mKeyImages_eq (cut_exact hexact') ?_
  unfold Wallet2.images
  rw [h.cut_mTransfers hv, map_spendIf_images]

end

/-- Detaching a wallet that has read blocks with distinct one-time keys gives the
wallet that has read the blocks below, exactly when no block taken back spends
an output that is unspent there. -/
theorem detach_undoes_reading {we : WalletEnv} {acc : AccountBase} {g : Hash}
    {blocks : List ServedBlock} {w : Wallet2} {height : Nat} (hs : we.img.Sound we.env acc)
    (hu : ∀ s ∈ blocks, ∀ tx, some tx ∈ entryTxs we.env s.b s.txs → UniformInputs tx)
    (hplaced : ∀ i s, blocks[i]? = some s → (getBlockHeight s.b).toNat = 1 + i)
    (hkeys : (blocks.flatMap (ServedBlock.keys we acc)).Nodup)
    (hrun : processBlocks we blocks (.fresh acc g) = .ok () w) (hpos : 0 < height)
    (hle : height ≤ w.mBlockchain.length) :
    ∃ v, processBlocks we (blocks.take (height - 1)) (.fresh acc g) = .ok () v ∧
      ((∃ w', detachBlockchain height w = .ok () w' ∧ SameRecords v w' ∧
          w'.mLocalBcHeight = v.mLocalBcHeight ∧ w'.balance = v.balance) ↔
        ∀ td ∈ v.mTransfers, td.mSpent = false →
          td.mKeyImage ∉ (blocks.drop (height - 1)).flatMap (ServedBlock.spends we acc)) := by
  have hsplit := List.take_append_drop (height - 1) blocks
  have hrun' := hrun
  rw [← hsplit] at hrun'
  obtain ⟨v, hv, hrest⟩ := processBlocks_append_ok hrun'
  refine ⟨v, hv, ?_⟩
  have hfresh := fresh_tidy we acc g
  -- how far the wallet got
  obtain ⟨-, -, hwlen, -⟩ := hfresh.processBlocks 0 hs hu hplaced hkeys
    (Nat.zero_le _) (ReadOn.refl _ _ _) hrun
  have hone : (Wallet2.fresh acc g).mBlockchain.length = 1 := rfl
  have htake : (blocks.take (height - 1)).length = height - 1 := by
    rw [List.length_take]
    omega
  have hkeys' := hkeys
  rw [← hsplit, List.flatMap_append] at hkeys'
  -- the blocks below
  obtain ⟨htidy, hvkeys, hvlen, hbelow⟩ := hfresh.processBlocks 0 hs
    (fun s hs' => hu s (List.mem_of_mem_take hs'))
    (fun i s hs' => hplaced i s (by
      rw [List.getElem?_take] at hs'
      split at hs'
      · exact hs'
      · cases hs'))
    (List.nodup_append.1 hkeys').1 (Nat.zero_le _) (ReadOn.refl _ _ _) hv
  rw [hone, htake, Nat.add_sub_cancel' hpos] at hvlen
  -- the blocks taken back
  obtain ⟨htidy', -, -, hon⟩ := htidy.processBlocks height hs
    (fun s hs' => hu s (List.mem_of_mem_drop hs'))
    (fun i s hs' => by
      rw [List.getElem?_drop] at hs'
      rw [hplaced _ s hs', hvlen]
      omega)
    (by
      rw [hvkeys]
      exact hkeys')
    (Nat.le_of_eq hvlen.symm) (ReadOn.refl _ _ _) hrest
  rw [hvlen] at hbelow
  have hunder := hbelow.below
  rw [List.nil_append] at hon
  have hdetached := detachBlockchain_eq htidy'.exact hle
  have htransfers := hon.cut_mTransfers hunder
  obtain ⟨hchain, hlocal⟩ := hon.cut_chain hvlen
  have hsame : v.mTransfers.map (TransferDetails.spendIf
        ((blocks.drop (height - 1)).flatMap (ServedBlock.spends we acc))) = v.mTransfers ↔
      ∀ td ∈ v.mTransfers, td.mSpent = false →
        td.mKeyImage ∉ (blocks.drop (height - 1)).flatMap (ServedBlock.spends we acc) := by
    conv_lhs => rhs; rw [← List.map_id v.mTransfers]
    rw [List.map_inj_left]
    exact forall₂_congr fun td _ => spendIf_eq_self
  rw [← hsame]
  constructor
  · rintro ⟨w', hw', hrecords, -, -⟩
    rw [hdetached] at hw'
    cases hw'
    rw [← htransfers, hrecords.transfers]
  · intro hunspent
    rw [hunspent] at htransfers
    have hpending : (w.cut height).mUnconfirmedTxs = v.mUnconfirmedTxs :=
      htidy'.pending.trans htidy.pending.symm
    refine ⟨w.cut height, hdetached, ⟨htransfers, ?_, ?_, ?_, hpending, hchain⟩, hlocal, ?_⟩
    · exact hon.cut_mKeyImages hunder htidy.exact htidy'.exact
    · exact hon.cut_mPayments hunder
    · exact hon.cut_mTransferHistory hunder
    · unfold Wallet2.balance
      rw [htransfers, hpending]

namespace Devnet

/-- A block with a payment under the transaction key 1, and two to follow it: one
with nothing of the purse's and one that spends the payment. -/
def payBlock : ServedBlock := ⟨mainBlock 1, [[7, 1, 0, 1]], 2, answering⟩

/-- A block without transactions. -/
def emptyBlock : ServedBlock := ⟨mainBlock 2, [], 3, answering⟩

/-- A block that spends what `payBlock` paid. -/
def spendBlock : ServedBlock := ⟨mainBlock 2, [[8, 2, 1, 0]], 3, answering⟩

/-- The purse after it has read the blocks. -/
def reads (blocks : List ServedBlock) : Wallet2 :=
  stateOf (processBlocks (walletEnv answering) blocks newPurse)

/-- The purse has read the blocks to the end. -/
def readsAll (blocks : List ServedBlock) : Bool :=
  match processBlocks (walletEnv answering) blocks newPurse with
  | .ok _ _ => true
  | .error _ _ => false

/-- What the sample wallet is after the blocks it can read. -/
theorem reads_eq {blocks : List ServedBlock} (h : readsAll blocks = true) :
    processBlocks (walletEnv answering) blocks newPurse = .ok () (reads blocks) := by
  unfold readsAll at h
  unfold reads
  cases hres : processBlocks (walletEnv answering) blocks newPurse with
  | ok _ w => rfl
  | error ex w =>
    rw [hres] at h
    cases h

/-- The inputs of the sample blocks are of one sort each. -/
theorem served_uniform {s : ServedBlock} (h : s = payBlock ∨ s = emptyBlock ∨ s = spendBlock) :
    ∀ tx, some tx ∈ entryTxs (walletEnv answering).env s.b s.txs → UniformInputs tx := by
  intro tx htx
  rcases List.mem_cons.1 htx with hcoinbase | htx
  · cases hcoinbase
    rcases h with rfl | rfl | rfl
    · exact .inr (by decide)
    · exact .inr (by decide)
    · exact .inr (by decide)
  · rcases h with rfl | rfl | rfl
    · cases List.mem_singleton.1 htx
      exact .inl (by decide)
    · cases htx
    · cases List.mem_singleton.1 htx
      exact .inl (by decide)

end Devnet

/-- Taking a block back that did not touch the purse. -/
theorem detach_undoes_reading_devnet :
    ∃ v w', processBlocks (Devnet.walletEnv Devnet.answering) [Devnet.payBlock] Devnet.newPurse =
        .ok () v ∧
      detachBlockchain 2 (Devnet.reads [Devnet.payBlock, Devnet.emptyBlock]) = .ok () w' ∧
      SameRecords v w' ∧ w'.balance = v.balance := by
  have eval :
      Devnet.readsAll [Devnet.payBlock, Devnet.emptyBlock] = true ∧
      (Devnet.reads [Devnet.payBlock, Devnet.emptyBlock]).mBlockchain.length = 3 ∧
      ([Devnet.payBlock, Devnet.emptyBlock].flatMap (ServedBlock.keys
        (Devnet.walletEnv Devnet.answering) Devnet.purse)).Nodup ∧
      [Devnet.emptyBlock].flatMap (ServedBlock.spends (Devnet.walletEnv Devnet.answering)
        Devnet.purse) = [] ∧
      (getBlockHeight Devnet.payBlock.b).toNat = 1 ∧
      (getBlockHeight Devnet.emptyBlock.b).toNat = 2 := by
    decide +kernel
  obtain ⟨hall, hlen, hkeys, hspends, hone, htwo⟩ := eval
  have hrun := Devnet.reads_eq hall
  have hu : ∀ s ∈ [Devnet.payBlock, Devnet.emptyBlock], ∀ tx,
      some tx ∈ entryTxs (Devnet.walletEnv Devnet.answering).env s.b s.txs → UniformInputs tx := by
    intro s hs
    rcases List.mem_cons.1 hs with rfl | hs
    · exact Devnet.served_uniform (.inl rfl)
    · cases List.mem_singleton.1 hs
      exact Devnet.served_uniform (.inr (.inl rfl))
  have hplaced : ∀ i s, [Devnet.payBlock, Devnet.emptyBlock][i]? = some s →
      (getBlockHeight s.b).toNat = 1 + i := by
    intro i s hs
    match i with
    | 0 =>
      cases hs
      exact hone
    | 1 =>
      cases hs
      exact htwo
    | i + 2 => cases hs
  generalize Devnet.reads [Devnet.payBlock, Devnet.emptyBlock] = w at *
  have hle : 2 ≤ w.mBlockchain.length := by omega
  obtain ⟨v, hv, hiff⟩ := detach_undoes_reading (Devnet.walletEnv_sound _ _) hu hplaced
    hkeys hrun Nat.two_pos hle
  obtain ⟨w', hw', hsame, -, hbalance⟩ := hiff.2 (by
    intro td _ _
    rw [show [Devnet.payBlock, Devnet.emptyBlock].drop (2 - 1) = [Devnet.emptyBlock] from rfl,
      hspends]
    exact List.not_mem_nil)
  exact ⟨v, w', hv, hw', hsame, hbalance⟩

/-- The block taken back spent the payment from below: it stays spent. -/
theorem detach_keeps_spent :
    ∃ v w w', processBlocks (Devnet.walletEnv Devnet.answering) [Devnet.payBlock, Devnet.spendBlock]
        Devnet.newPurse = .ok () w ∧
      ([Devnet.payBlock, Devnet.spendBlock].flatMap (ServedBlock.keys
        (Devnet.walletEnv Devnet.answering) Devnet.purse)).Nodup ∧
      processBlocks (Devnet.walletEnv Devnet.answering) [Devnet.payBlock] Devnet.newPurse = .ok () v ∧
      detachBlockchain 2 w = .ok () w' ∧ w'.mTransfers ≠ v.mTransfers ∧ w'.balance = 0 ∧
      v.balance = Devnet.unit := by
  have eval :
      Devnet.readsAll [Devnet.payBlock, Devnet.spendBlock] = true ∧
      Devnet.readsAll [Devnet.payBlock] = true ∧
      ([Devnet.payBlock, Devnet.spendBlock].flatMap (ServedBlock.keys
        (Devnet.walletEnv Devnet.answering) Devnet.purse)).Nodup ∧
      (match detachBlockchain 2 (Devnet.reads [Devnet.payBlock, Devnet.spendBlock]) with
        | .ok _ w' => decide (w'.mTransfers ≠ (Devnet.reads [Devnet.payBlock]).mTransfers ∧
            w'.balance = 0)
        | .error _ _ => false) = true ∧
      (Devnet.reads [Devnet.payBlock]).balance = Devnet.unit := by
    decide +kernel
  obtain ⟨hall, hfirst, hkeys, hdetach, hbalance⟩ := eval
  refine ⟨Devnet.reads [Devnet.payBlock], Devnet.reads [Devnet.payBlock, Devnet.spendBlock], ?_⟩
  cases hres : detachBlockchain 2 (Devnet.reads [Devnet.payBlock, Devnet.spendBlock]) with
  | error ex w' =>
    rw [hres] at hdetach
    cases hdetach
  | ok u w' =>
    rw [hres] at hdetach
    cases u
    obtain ⟨hne, hzero⟩ := of_decide_eq_true hdetach
    exact ⟨w', Devnet.reads_eq hall, hkeys, Devnet.reads_eq hfirst, rfl, hne, hzero, hbalance⟩

end DarknetSpace
