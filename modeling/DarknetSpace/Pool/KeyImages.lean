import DarknetSpace.Core.Core
import DarknetSpace.Lib.SetMap

/-!
# The key images of the pool

`m_spent_key_images` says which pool transactions spend an image. It is written
one image at a time, behind the transaction itself, and both loops stop at the
first image that does not fit. For a transaction with inputs from keys and with
no image twice neither loop stops early, and the map stays what the
transactions say.

`KeyImagesExact` reads the map as a relation (`Lib/SetMap`). `addKeyImages_eq` and
`removeTransactionKeyimages_eq` say what the loops do to it when they run to their end,
and the lemmas behind them, what storing and taking a transaction do.
-/

namespace DarknetSpace

namespace TxMemoryPool

/-- Inputs from keys, no image twice: what `check_tx_inputs_keyimages_diff`
passes. -/
def DistinctImages (tx : TransactionPrefix) : Prop := checkTxInputsKeyimagesDiff tx = true

theorem distinctImages_iff {tx : TransactionPrefix} : DistinctImages tx ↔
    checkInputsTypesSupported tx = true ∧ (keyImages tx.vin).Nodup := by
  unfold DistinctImages checkTxInputsKeyimagesDiff
  rw [Bool.and_eq_true, decide_eq_true_eq]

theorem DistinctImages.vin {tx : TransactionPrefix} (h : DistinctImages tx) :
    ∀ i ∈ tx.vin, ∃ amount offs kImage, i = .toKey amount offs kImage := by
  intro i hi
  have := List.all_eq_true.1 (distinctImages_iff.1 h).1 i hi
  cases i with
  | toKey amount offs kImage => exact ⟨amount, offs, kImage, rfl⟩
  | _ => cases this

theorem DistinctImages.nodup {tx : TransactionPrefix} (h : DistinctImages tx) :
    (keyImages tx.vin).Nodup :=
  (distinctImages_iff.1 h).2

/-! ## The two loops -/

section

variable {id : Hash} {vin : List Txin} {m : Map KeyImage (Std.ExtTreeSet Hash compare)}

theorem mem_foldl_put {ks : List KeyImage} {k : KeyImage} {i : Hash} :
    i ∈ SetMap.items (ks.foldl (fun m k => SetMap.put m k id) m) k ↔
      i ∈ SetMap.items m k ∨ (k ∈ ks ∧ i = id) := by
  induction ks generalizing m with
  | nil => simp
  | cons k' ks ih =>
    rw [List.foldl_cons, ih, SetMap.mem_put, List.mem_cons]
    tauto

theorem mem_foldl_take {ks : List KeyImage} {k : KeyImage} {i : Hash} :
    i ∈ SetMap.items (ks.foldl (fun m k => SetMap.take m k id) m) k ↔
      i ∈ SetMap.items m k ∧ ¬ (k ∈ ks ∧ i = id) := by
  induction ks generalizing m with
  | nil => simp
  | cons k' ks ih =>
    rw [List.foldl_cons, ih, SetMap.mem_take, List.mem_cons]
    tauto

theorem noEmpty_foldl_put {ks : List KeyImage} (h : SetMap.NoEmpty m) :
    SetMap.NoEmpty (ks.foldl (fun m k => SetMap.put m k id) m) := by
  induction ks generalizing m with
  | nil => exact h
  | cons k ks ih => exact ih (h.put k id)

theorem noEmpty_foldl_take {ks : List KeyImage} (h : SetMap.NoEmpty m) :
    SetMap.NoEmpty (ks.foldl (fun m k => SetMap.take m k id) m) := by
  induction ks generalizing m with
  | nil => exact h
  | cons k ks ih => exact ih (h.take k id)

/-- The loop at the end of `add_tx` goes through: the images are distinct, none
is filed for the transaction yet and, unless it comes with a block, none at
all. -/
theorem addKeyImages_eq {kept : Bool}
    (hvin : ∀ i ∈ vin, ∃ amount offs kImage, i = .toKey amount offs kImage)
    (hnodup : (keyImages vin).Nodup)
    (hfresh : ∀ k ∈ keyImages vin, id ∉ SetMap.items m k)
    (hunused : kept = false → ∀ k ∈ keyImages vin, SetMap.items m k = ∅) :
    addKeyImages kept id vin m = (true, (keyImages vin).foldl (fun m k => SetMap.put m k id) m) := by
  induction vin generalizing m with
  | nil => rfl
  | cons i rest ih =>
    obtain ⟨amount, offs, kImage, rfl⟩ := hvin i List.mem_cons_self
    have himages : keyImages (.toKey amount offs kImage :: rest) = kImage :: keyImages rest := rfl
    rw [himages] at hnodup hfresh hunused
    rw [himages, List.foldl_cons]
    have hset : m.getD kImage ∅ = SetMap.items m kImage := rfl
    have hcond : ¬ ((!kept && !(SetMap.items m kImage).isEmpty) = true) := by
      intro hc
      rw [Bool.and_eq_true, Bool.not_eq_true', Bool.not_eq_true'] at hc
      rw [hunused hc.1 kImage List.mem_cons_self] at hc
      cases hc.2
    have hnot : ¬ ((SetMap.items m kImage).contains id = true) := by
      rw [Std.ExtTreeSet.contains_iff_mem]
      exact hfresh kImage List.mem_cons_self
    rw [addKeyImages]
    simp only [hset]
    rw [if_neg hcond, if_neg hnot]
    refine ih (fun i hi => hvin i (List.mem_cons_of_mem _ hi)) hnodup.tail ?_ ?_
    · intro k hk hmem
      have hne : k ≠ kImage := fun h => (List.nodup_cons.1 hnodup).1 (h ▸ hk)
      rcases SetMap.mem_put.1 hmem with hmem | ⟨rfl, -⟩
      · exact hfresh k (List.mem_cons_of_mem _ hk) hmem
      · exact hne rfl
    · intro hkept k hk
      have hne : k ≠ kImage := fun h => (List.nodup_cons.1 hnodup).1 (h ▸ hk)
      refine Std.ExtTreeSet.eq_empty_iff_forall_not_mem.2 fun i hmem => ?_
      rcases SetMap.mem_put.1 hmem with hmem | ⟨rfl, -⟩
      · rw [hunused hkept k (List.mem_cons_of_mem _ hk)] at hmem
        exact Std.ExtTreeSet.not_mem_empty hmem
      · exact hne rfl

/-- `remove_transaction_keyimages` goes through when every image is filed for
the transaction. -/
theorem removeTransactionKeyimages_eq
    (hvin : ∀ i ∈ vin, ∃ amount offs kImage, i = .toKey amount offs kImage)
    (hnodup : (keyImages vin).Nodup) (hfiled : ∀ k ∈ keyImages vin, id ∈ SetMap.items m k) :
    removeTransactionKeyimages id vin m =
      (true, (keyImages vin).foldl (fun m k => SetMap.take m k id) m) := by
  induction vin generalizing m with
  | nil => rfl
  | cons i rest ih =>
    obtain ⟨amount, offs, kImage, rfl⟩ := hvin i List.mem_cons_self
    have himages : keyImages (.toKey amount offs kImage :: rest) = kImage :: keyImages rest := rfl
    rw [himages] at hnodup hfiled
    rw [himages, List.foldl_cons, removeTransactionKeyimages]
    have hhere := hfiled kImage List.mem_cons_self
    cases hm : m[kImage]? with
    | none =>
      rw [SetMap.items_of_none hm] at hhere
      exact absurd hhere Std.ExtTreeSet.not_mem_empty
    | some set =>
      have hset := SetMap.items_eq hm
      rw [hset] at hhere
      simp only
      rw [if_neg (by rw [Std.ExtTreeSet.contains_iff_mem]; exact not_not.2 hhere)]
      have htake : (if (set.erase id).isEmpty = true then m.erase kImage
          else m.insert kImage (set.erase id)) = SetMap.take m kImage id := by
        rw [SetMap.take, hset]
      rw [htake]
      refine ih (fun i hi => hvin i (List.mem_cons_of_mem _ hi)) hnodup.tail fun k hk => ?_
      have hne : k ≠ kImage := fun h => (List.nodup_cons.1 hnodup).1 (h ▸ hk)
      exact SetMap.mem_take.2 ⟨hfiled k (List.mem_cons_of_mem _ hk), fun h => hne h.1⟩

end

/-! ## The map is exact -/

/-- An image's set is the pool transactions that spend it, and no set is
empty. -/
structure KeyImagesExact (p : TxMemoryPool) : Prop where
  items : ∀ k id, id ∈ SetMap.items p.mSpentKeyImages k ↔
    ∃ txd, p.mTransactions[id]? = some txd ∧ k ∈ keyImages txd.tx.vin
  noEmpty : SetMap.NoEmpty p.mSpentKeyImages

/-- Pool entries are filed under their ids and have distinct images. -/
def FiledDistinct (env : Env) (id : Hash) (txd : TxDetails) : Prop :=
  getTransactionHash env txd.tx = id ∧ DistinctImages txd.tx.toTransactionPrefix

section

variable {env : Env} {p : TxMemoryPool} {id : Hash} {txd : TxDetails}

theorem KeyImagesExact.empty : KeyImagesExact TxMemoryPool.empty := by
  refine ⟨fun k id => ?_, fun k s hs => ?_⟩
  · have hnone : (∅ : Map KeyImage (Std.ExtTreeSet Hash compare))[k]? = none :=
      Std.ExtTreeMap.getElem?_empty
    show id ∈ SetMap.items ∅ k ↔ ∃ txd, (∅ : Map Hash TxDetails)[id]? = some txd ∧ _
    rw [SetMap.items_of_none hnone]
    constructor
    · intro h
      exact absurd h Std.ExtTreeSet.not_mem_empty
    · intro ⟨txd, htxd, _⟩
      have hempty : (∅ : Map Hash TxDetails)[id]? = none := Std.ExtTreeMap.getElem?_empty
      cases hempty.symm.trans htxd
  · have hnone : (∅ : Map KeyImage (Std.ExtTreeSet Hash compare))[k]? = none :=
      Std.ExtTreeMap.getElem?_empty
    cases hnone.symm.trans hs

/-- The images of an entry can be taken out. -/
theorem KeyImagesExact.removes (h : KeyImagesExact p) (hm : p.mTransactions[id]? = some txd)
    (hd : FiledDistinct env id txd) :
    removeTransactionKeyimages (getTransactionHash env txd.tx) txd.tx.vin p.mSpentKeyImages =
      (true, (keyImages txd.tx.vin).foldl (fun m k => SetMap.take m k id) p.mSpentKeyImages) := by
  rw [hd.1]
  exact removeTransactionKeyimages_eq hd.2.vin hd.2.nodup fun k hk => (h.items k id).2 ⟨txd, hm, hk⟩

theorem KeyImagesExact.erased {p' : TxMemoryPool} (h : KeyImagesExact p)
    (hm : p.mTransactions[id]? = some txd) (hd : FiledDistinct env id txd)
    (htxs : p'.mTransactions = p.mTransactions.erase id)
    (himages : p'.mSpentKeyImages =
      removeKeyImages (getTransactionHash env txd.tx) txd.tx.vin p.mSpentKeyImages) :
    KeyImagesExact p' := by
  rw [← removeTransactionKeyimages_snd, h.removes hm hd] at himages
  refine ⟨fun k i => ?_, ?_⟩
  · rw [himages, mem_foldl_take, h.items, htxs, Std.ExtTreeMap.getElem?_erase]
    by_cases hi : i = id
    · subst hi
      rw [if_pos Std.ReflCmp.compare_self, hm]
      constructor
      · intro ⟨⟨txd', htxd', hk⟩, hnot⟩
        cases htxd'
        exact absurd ⟨hk, rfl⟩ hnot
      · intro ⟨txd', htxd', _⟩
        cases htxd'
    · rw [if_neg fun hc => hi (Std.LawfulEqCmp.eq_of_compare hc).symm]
      constructor
      · intro hl
        exact hl.1
      · intro hr
        exact ⟨hr, fun hk => hi hk.2⟩
  · rw [himages]
    exact noEmpty_foldl_take h.noEmpty

theorem removeAliasTxPair_transactions (p : TxMemoryPool) (id : Hash) :
    (p.removeAliasTxPair id).mTransactions = p.mTransactions ∧
      (p.removeAliasTxPair id).mSpentKeyImages = p.mSpentKeyImages := by
  unfold removeAliasTxPair
  split <;> exact ⟨rfl, rfl⟩

theorem KeyImagesExact.takeTx {p' : TxMemoryPool} (h : KeyImagesExact p)
    (ht : p.takeTx env id = some (txd, p'))
    (hd : ∀ txd, p.mTransactions[id]? = some txd → FiledDistinct env id txd) :
    KeyImagesExact p' := by
  unfold TxMemoryPool.takeTx at ht
  split at ht
  · cases ht
  · next txd' hm =>
    obtain ⟨rfl, rfl⟩ := Prod.mk.inj (Option.some.inj ht)
    refine h.erased hm (hd _ hm) ?_ ?_
    · exact (removeAliasTxPair_transactions _ _).1
    · exact (removeAliasTxPair_transactions _ _).2

theorem KeyImagesExact.congr {p' : TxMemoryPool} (h : KeyImagesExact p)
    (htxs : p'.mTransactions = p.mTransactions)
    (himages : p'.mSpentKeyImages = p.mSpentKeyImages) : KeyImagesExact p' := by
  refine ⟨?_, ?_⟩
  · rw [himages, htxs]
    exact h.items
  · rw [himages]
    exact h.noEmpty

/-- Filing a transaction with distinct images: the loop goes through, and the
map stays exact. -/
theorem KeyImagesExact.insertTx (h : KeyImagesExact p) (hd : DistinctImages txd.tx.toTransactionPrefix)
    (hnew : p.mTransactions.contains id = false)
    (hunused : txd.keptByBlock = false →
      ∀ k ∈ keyImages txd.tx.vin, p.mSpentKeyImages.contains k = false)
    (tvc : TxVerificationContext) :
    (p.insertTx id txd tvc).1 = (true, { tvc with mAddedToPool := true, mVerifivationFailed := false }) ∧
      (p.insertTx id txd tvc).2.mTransactions = p.mTransactions.insert id txd ∧
      (p.insertTx id txd tvc).2.mAliasesToTxid = p.mAliasesToTxid ∧
      KeyImagesExact (p.insertTx id txd tvc).2 := by
  have hnone : p.mTransactions[id]? = none := by
    rw [Std.ExtTreeMap.contains_eq_isSome_getElem?] at hnew
    exact Option.not_isSome_iff_eq_none.1 (Bool.eq_false_iff.1 hnew)
  -- the transaction is new to the pool, so no image has it, and a free image is taken by nobody
  have hadd : addKeyImages txd.keptByBlock id txd.tx.vin p.mSpentKeyImages = (true,
      (keyImages txd.tx.vin).foldl (fun m k => SetMap.put m k id) p.mSpentKeyImages) := by
    refine addKeyImages_eq hd.vin hd.nodup (fun k _ hmem => ?_) fun hkept k hk => ?_
    · obtain ⟨txd', htxd', _⟩ := (h.items k id).1 hmem
      cases hnone.symm.trans htxd'
    · refine Std.ExtTreeSet.eq_empty_iff_forall_not_mem.2 fun i hi => ?_
      have hthere := h.noEmpty.contains_iff.2 ⟨i, hi⟩
      cases (hunused hkept k hk).symm.trans hthere
  have hins : p.insertTx id txd tvc =
      ((true, { tvc with mAddedToPool := true, mVerifivationFailed := false }),
        { p with
          mTransactions := p.mTransactions.insert id txd
          mSpentKeyImages :=
            (keyImages txd.tx.vin).foldl (fun m k => SetMap.put m k id) p.mSpentKeyImages }) := by
    unfold TxMemoryPool.insertTx
    rw [if_neg (by rw [hnew]; exact Bool.false_ne_true), hadd]
    rfl
  rw [hins]
  refine ⟨rfl, rfl, rfl, fun k i => ?_, noEmpty_foldl_put h.noEmpty⟩
  show i ∈ SetMap.items ((keyImages txd.tx.vin).foldl (fun m k => SetMap.put m k id)
    p.mSpentKeyImages) k ↔ ∃ txd', (p.mTransactions.insert id txd)[i]? = some txd' ∧ _
  rw [mem_foldl_put, h.items, Std.ExtTreeMap.getElem?_insert]
  by_cases hi : i = id
  · subst hi
    rw [if_pos Std.ReflCmp.compare_self, hnone]
    constructor
    · rintro (⟨_, hc, _⟩ | ⟨hk, -⟩)
      · cases hc
      · exact ⟨txd, rfl, hk⟩
    · intro ⟨txd', hc, hk⟩
      cases hc
      exact .inr ⟨hk, rfl⟩
  · rw [if_neg fun hc => hi (Std.LawfulEqCmp.eq_of_compare hc).symm]
    constructor
    · rintro (hl | ⟨-, hc⟩)
      · exact hl
      · exact absurd hc hi
    · exact .inl

end

end TxMemoryPool

end DarknetSpace
