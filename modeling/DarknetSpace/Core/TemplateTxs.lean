import DarknetSpace.Chain.Batch
import DarknetSpace.Core.PoolAliases
import DarknetSpace.Pool.FillTemplate

/-!
# The transactions of a template

`fill_block_template` picks what is ready and has key images of its own. Ready
means that the inputs were checked, now or at the time the newest block they
refer to was already where it is; it says nothing about the alias, which is
first looked at when the block is pushed, and nothing about ids that a refused
block left in `m_transactions`.

The result of the file says what has to be true of the chosen transactions, one
by one, for all of them to be applied.

Main result: `template_txs_apply_iff`, for every reachable node and every template that
is filled from its pool. `Ready` and the images are facts about all runs
(`Reachable.pool_intake`, `Reachable.flagsFit`); what is left over for the condition is
the alias and the id.
-/

namespace DarknetSpace

open StateExn

/-! ## What every node's blocks and pool have -/

theorem TxsTaken.flags_length {env : Env} {now k : Nat} {ids : List Hash} {n n' : Node}
    {taken : List TakenTx} (h : TxsTaken env now k ids n taken n') :
    ∀ t ∈ taken, t.entry.mSpentFlags.length = t.entry.tx.vout.length := by
  induction h with
  | nil =>
    intro t ht
    cases ht
  | cons _ _ recorded _ ih =>
    intro t ht
    rcases List.mem_cons.1 ht with rfl | ht
    · show List.length _ = _
      rw [recorded.entry]
      exact List.length_replicate
    · exact ih t ht

theorem Reachable.flagsFit {env : Env} {n : Node} (hn : Reachable env n) :
    FlagsFit n.chain.mBlocks := by
  refine (BlocksInvariant.of_reachable (A := FlagsFit) ⟨?_, ?_, ?_⟩
    (guaranteed_true env).admitted hn).2
  · intro bs bs' hb h
    exact h.of_forgetFlags hb
  · intro now bl n n' c _ hold e he
    have hbelow : FlagsFit c.m.chain.mBlocks := by
      rcases hold with hnil | hold
      · intro e he
        have hlen := length_eq_of_forgetFlags c.forgetFlags_eq
        rw [hnil, List.length_nil] at hlen
        rw [List.length_eq_zero_iff.1 hlen] at he
        cases he
      · exact hold.of_forgetFlags c.forgetFlags_eq
    rcases List.mem_append.1 he with he | he
    · exact hbelow e he
    · cases List.mem_singleton.1 he
      intro t ht
      rw [c.entry_transactions] at ht
      rcases List.mem_cons.1 ht with rfl | ht
      · rw [c.recorded.entry]
        exact List.length_replicate
      · obtain ⟨t', ht', rfl⟩ := List.mem_map.1 ht
        exact c.txs.flags_length t' ht'
  · intro bs e _ h e' he'
    exact h e' (List.mem_append_left _ he')

/-- What `handle_incoming_tx` has made sure of. -/
structure Intake (env : Env) (tx : TransactionPrefix) : Prop where
  extra : ∃ ei, parseAndValidateTxExtra env tx = .ok (true, ei)
  images : TxMemoryPool.DistinctImages tx
  spends : keyImages tx.vin ≠ []

theorem admitted_intake (env : Env) : Admitted env (Intake env) := by
  intro blob tx _ s kept hsem ei hei
  unfold checkTxSemantic at hsem
  simp only [Bool.and_eq_true] at hsem
  obtain ⟨⟨⟨⟨⟨⟨hvin, -⟩, -⟩, -⟩, -⟩, -⟩, himages⟩ := hsem
  have himages : TxMemoryPool.DistinctImages tx.toTransactionPrefix := himages
  refine ⟨⟨ei, hei⟩, himages, ?_⟩
  intro hnone
  cases hcase : tx.vin with
  | nil =>
    rw [hcase] at hvin
    cases hvin
  | cons i rest =>
    obtain ⟨amount, offs, ki, rfl⟩ := himages.vin i (by rw [hcase]; exact List.mem_cons_self)
    rw [hcase, keyImages_toKey_cons] at hnone
    cases hnone

theorem Reachable.pool_intake {env : Env} {n : Node} (hn : Reachable env n) {id : Hash}
    {txd : TxDetails} (h : n.pool.mTransactions[id]? = some txd) :
    getTransactionHash env txd.tx = id ∧ Intake env txd.tx.toTransactionPrefix := by
  have hentry := (hn.sound_of_admitted (admitted_intake env)).1.pool id txd h
  exact ⟨hentry.id_eq, hentry.good⟩

/-! ## Key images -/

namespace TxMemoryPool

theorem haveKeyImages_false {kImages : Std.ExtTreeSet KeyImage compare} {vin : List Txin}
    (hvin : ∀ i ∈ vin, ∃ amount offs kImage, i = .toKey amount offs kImage)
    (h : haveKeyImages kImages vin = false) : ∀ k ∈ keyImages vin, k ∉ kImages := by
  induction vin with
  | nil =>
    intro k hk
    cases hk
  | cons i rest ih =>
    obtain ⟨amount, offs, ki, rfl⟩ := hvin i List.mem_cons_self
    rw [haveKeyImages] at h
    split at h
    · cases h
    · next hki =>
      rw [keyImages_toKey_cons, List.forall_mem_cons]
      refine ⟨?_, ih (fun j hj => hvin j (List.mem_cons_of_mem _ hj)) h⟩
      rw [Std.ExtTreeSet.mem_iff_contains]
      exact hki

theorem mem_appendKeyImages {kImages : Std.ExtTreeSet KeyImage compare} {vin : List Txin}
    (hvin : ∀ i ∈ vin, ∃ amount offs kImage, i = .toKey amount offs kImage)
    (hnew : ∀ k ∈ keyImages vin, k ∉ kImages) (hnd : (keyImages vin).Nodup) (k : KeyImage) :
    k ∈ appendKeyImages kImages vin ↔ k ∈ kImages ∨ k ∈ keyImages vin := by
  induction vin generalizing kImages with
  | nil => exact ⟨.inl, fun h => h.elim id fun h => (nomatch h)⟩
  | cons i rest ih =>
    obtain ⟨amount, offs, ki, rfl⟩ := hvin i List.mem_cons_self
    rw [keyImages_toKey_cons] at hnew hnd ⊢
    rw [List.forall_mem_cons] at hnew
    rw [List.nodup_cons] at hnd
    rw [appendKeyImages, if_neg (by rw [← Std.ExtTreeSet.mem_iff_contains]; exact hnew.1),
      ih (fun j hj => hvin j (List.mem_cons_of_mem _ hj)) ?_ hnd.2, Std.ExtTreeSet.mem_insert,
      Std.LawfulEqCmp.compare_eq_iff_eq, List.mem_cons, or_assoc, or_left_comm, eq_comm]
    intro k' hk'
    rw [Std.ExtTreeSet.mem_insert, Std.LawfulEqCmp.compare_eq_iff_eq]
    intro hmem
    rcases hmem with rfl | hmem
    · exact hnd.1 hk'
    · exact hnew.2 k' hk' hmem

/-! ## What is picked -/

/-- The inputs of such an entry are not checked again. -/
def Trusted (env : Env) (chain : Storage) (txd : TxDetails) : Prop :=
  txd.maxUsedBlockId ≠ nullHash ∧
    chain.getBlockIdByHeight env txd.maxUsedBlockHeight = txd.maxUsedBlockId

/-- A ready entry has key images that are not spent, and inputs that pass now or
passed once. -/
structure Ready (env : Env) (now : Nat) (chain : Storage) (txd : TxDetails) : Prop where
  unspent : ∀ k ∈ keyImages txd.tx.vin, k ∉ chain.mSpentKeys
  checked : Trusted env chain txd ∨ ∃ used, chain.checkTxInputs env now txd.tx = .ok (some used)

section

variable {env : Env} {now : Nat} {chain : Storage} {txd txd' : TxDetails}

theorem unspent_of_images {tx : TransactionPrefix} (h : chain.haveTxKeyimgesAsSpent tx = false) :
    ∀ k ∈ keyImages tx.vin, k ∉ chain.mSpentKeys := by
  intro k hk hmem
  obtain ⟨i, hi, hik⟩ := List.mem_filterMap.1 hk
  unfold Storage.haveTxKeyimgesAsSpent at h
  have hfalse := List.any_eq_false.1 h i hi
  cases i with
  | toKey amount offs ki =>
    cases hik
    exact hfalse (Std.ExtTreeSet.mem_iff_contains.1 hmem)
  | gen g => cases hik
  | toScript => cases hik
  | toScripthash => cases hik

theorem recheck_ready (h : recheck env now chain txd = .ok (true, txd')) :
    Ready env now chain txd := by
  unfold recheck at h
  split at h
  · cases h
  · cases h
  · next used id hin =>
    have hspent : (!chain.haveTxKeyimgesAsSpent txd.tx.toTransactionPrefix) = true :=
      congrArg Prod.fst (Except.ok.inj h)
    rw [Bool.not_eq_true'] at hspent
    refine ⟨unspent_of_images hspent, .inr ?_⟩
    unfold Storage.checkTxInputsWithId at hin
    split at hin
    · cases hin
    · cases hin
    · next m hm => exact ⟨m, hm⟩

theorem isTransactionReadyToGo_ready (h : isTransactionReadyToGo env now chain txd = .ok (true, txd')) :
    Ready env now chain txd := by
  unfold isTransactionReadyToGo at h
  split at h
  · split at h
    · cases h
    · exact recheck_ready h
  · next hne =>
    split at h
    · cases h
    · split at h
      · split at h
        · cases h
        · exact recheck_ready h
      · next hid =>
        have hspent : (!chain.haveTxKeyimgesAsSpent txd.tx.toTransactionPrefix) = true :=
          congrArg Prod.fst (Except.ok.inj h)
        rw [Bool.not_eq_true'] at hspent
        exact ⟨unspent_of_images hspent, .inl ⟨hne, Classical.not_not.1 hid⟩⟩

end

/-- The entries of the ids that were picked. -/
def chosen (p : TxMemoryPool) (ids : List Hash) : List TxDetails :=
  ids.filterMap fun id => p.mTransactions[id]?

/-- The key images of entries. -/
def imagesOf (txds : List TxDetails) : List KeyImage := txds.flatMap fun txd => keyImages txd.tx.vin

/-- What the loop knows about what it has picked so far. -/
structure FillState.Picked (env : Env) (now : Nat) (chain : Storage) (p : TxMemoryPool)
    (st : FillState) : Prop where
  ready : ∀ id ∈ st.ready, ∃ txd, p.mTransactions[id]? = some txd ∧ Ready env now chain txd
  images : (imagesOf (p.chosen st.ready)).Nodup
  kImages : ∀ k, k ∈ st.kImages ↔ k ∈ imagesOf (p.chosen st.ready)
  best : st.best <+: st.ready

section

variable {env : Env} {now : Nat} {chain : Storage} {medianSize height : Nat} {generated : UInt64}
  {p : TxMemoryPool}

theorem picked_start (bestMoney : UInt64) :
    (FillState.start p bestMoney).Picked env now chain p where
  ready _ h := (nomatch h)
  images := List.nodup_nil
  kImages _ := ⟨fun h => (nomatch (Std.ExtTreeSet.mem_iff_contains.1 h)), fun h => (nomatch h)⟩
  best := List.prefix_rfl

theorem FillState.Picked.take {st st' : FillState} {id : Hash} {txd txd' : TxDetails}
    (hst : st.Picked env now chain p) (hentry : p.mTransactions[id]? = some txd)
    (hsame : txd'.tx = txd.tx) (hready : Ready env now chain txd)
    (hd : DistinctImages txd.tx.toTransactionPrefix)
    (hhave : haveKeyImages st.kImages txd'.tx.vin = false)
    (h : st.take medianSize generated height id txd' = some st') : st'.Picked env now chain p := by
  rw [hsame] at hhave
  have hnew := haveKeyImages_false hd.vin hhave
  have hchosen : imagesOf (p.chosen (st.ready ++ [id])) =
      imagesOf (p.chosen st.ready) ++ keyImages txd.tx.vin := by
    unfold chosen imagesOf
    rw [List.filterMap_append, List.flatMap_append]
    congr 1
    rw [List.filterMap_cons, hentry]
    exact List.append_nil _
  -- whichever of the two is the best one now, the transaction is among those that are ready
  have hpicked : ∀ bestMoney best totalSize fee, best <+: st.ready ++ [id] → FillState.Picked env now chain p
      { st with
        kImages := appendKeyImages st.kImages txd'.tx.vin
        ready := st.ready ++ [id]
        currentSize := st.currentSize + txd'.blobSize
        currentFee := st.currentFee + txd'.fee
        bestMoney := bestMoney
        best := best
        totalSize := totalSize
        fee := fee } := by
    intro bestMoney best totalSize fee hbest
    refine ⟨?_, ?_, ?_, hbest⟩
    · intro id' hid'
      rcases List.mem_append.1 hid' with hid' | hid'
      · exact hst.ready id' hid'
      · cases List.mem_singleton.1 hid'
        exact ⟨txd, hentry, hready⟩
    · show (imagesOf (p.chosen (st.ready ++ [id]))).Nodup
      rw [hchosen, List.nodup_append]
      refine ⟨hst.images, hd.nodup, ?_⟩
      intro a ha b hb hab
      exact hnew b hb (hab ▸ (hst.kImages a).2 ha)
    · intro k
      show k ∈ appendKeyImages st.kImages txd'.tx.vin ↔ k ∈ imagesOf (p.chosen (st.ready ++ [id]))
      rw [hsame, mem_appendKeyImages hd.vin hnew hd.nodup, hchosen, List.mem_append, hst.kImages]
  unfold FillState.take at h
  simp only at h
  split at h
  · cases h
  · split at h
    · cases h
      exact hpicked _ _ _ _ List.prefix_rfl
    · cases h
      exact hpicked _ _ _ _ (hst.best.trans (List.prefix_append _ _))

theorem fillLoop_picked (hp : ∀ (id : Hash) txd, p.mTransactions[id]? = some txd →
      DistinctImages txd.tx.toTransactionPrefix)
    {txs : List (Hash × TxDetails)} {st st' : FillState}
    (htxs : ∀ e ∈ txs, p.mTransactions[e.1]? = some e.2) (hst : st.Picked env now chain p)
    (h : fillLoop env now chain medianSize generated height txs st = .ok st') :
    st'.Picked env now chain p := by
  induction txs generalizing st with
  | nil =>
    cases h
    exact hst
  | cons e rest ih =>
    obtain ⟨id, txd⟩ := e
    rw [List.forall_mem_cons] at htxs
    unfold fillLoop at h
    split at h
    · cases h
    · next isReady txd' hready =>
      obtain ⟨hsame, -⟩ := isTransactionReadyToGo_same hready
      have hst' : ({ st with pool := { st.pool with
          mTransactions := st.pool.mTransactions.insert id txd' } } : FillState).Picked env now chain p :=
        ⟨hst.ready, hst.images, hst.kImages, hst.best⟩
      simp only at h
      split at h
      · exact ih htxs.2 hst' h
      · next hgo =>
        rw [not_or, Classical.not_not, Bool.not_eq_true] at hgo
        obtain ⟨rfl, hhave⟩ := hgo
        split at h
        · cases h
          exact hst'
        · next st₂ htake =>
          exact ih htxs.2 (hst'.take htxs.1 hsame (isTransactionReadyToGo_ready hready)
            (hp id txd htxs.1) hhave htake) h

/-- What is picked in the end is ready, and shares no key images. -/
theorem fillBlockTemplate_picked (hp : ∀ (id : Hash) txd, p.mTransactions[id]? = some txd →
      DistinctImages txd.tx.toTransactionPrefix)
    {txs : List (Hash × TxDetails)} {f : Filled}
    (htxs : ∀ e ∈ txs, p.mTransactions[e.1]? = some e.2)
    (h : fillBlockTemplate env now chain p txs medianSize generated height = .ok (some f)) :
    (∀ id ∈ f.txHashes, ∃ txd, p.mTransactions[id]? = some txd ∧ Ready env now chain txd) ∧
      (imagesOf (p.chosen f.txHashes)).Nodup := by
  unfold fillBlockTemplate at h
  split at h
  · cases h
  · split at h
    · cases h
    · next st hloop =>
      cases h
      have hst := fillLoop_picked hp htxs (picked_start _) hloop
      obtain ⟨rest, hrest⟩ := hst.best
      have hready := hst.ready
      have himages := hst.images
      rw [← hrest] at hready himages
      refine ⟨fun id hid => hready id (List.mem_append_left _ hid), ?_⟩
      unfold chosen imagesOf at himages
      rw [List.filterMap_append, List.flatMap_append, List.nodup_append] at himages
      exact himages.1

end

end TxMemoryPool

/-! ## Applying them -/

open TxMemoryPool

/-- A picked entry that can be applied behind the ones before it: its inputs pass
now, if it was picked because they once did; its id is not on the chain; and its
alias, if it has one, is granted. -/
structure TemplateFits (env : Env) (now : Nat) (s : Storage) (earlier : List TxDetails)
    (txd : TxDetails) : Prop where
  inputs : Trusted env s txd →
    ∃ used, (s.withKnown env (earlier.map (·.tx))).checkTxInputs env now txd.tx = .ok (some used)
  fresh : s.mTransactions.contains (getTransactionHash env txd.tx) = false
  granted : ∀ ai, txAlias env txd.tx.toTransactionPrefix = some ai →
    nameGranted env (aliasHistory s ai.mAlias ++
      earlier.flatMap fun e => aliasEntries env e.tx.toTransactionPrefix ai.mAlias) ai = true

section

variable {env : Env} {now : Nat} {s : Storage}

theorem keepsReads_withKnown (s : Storage) (txs : List Transaction) :
    KeepsReads s (s.withKnown env txs) where
  blocks := rfl
  transactions id hid := (Storage.contains_withKnown id).2 (.inl hid)
  outputs _ _ _ hp _ := hp
  zone := rfl

/-- For a ready entry, the inputs are in doubt only when it is trusted. -/
theorem TxMemoryPool.Ready.fits_iff {txd : TxDetails} (h : Ready env now s txd) (earlier : List TxDetails) :
    Fits env now s (earlier.map (·.tx)) txd.tx ↔ TemplateFits env now s earlier txd := by
  have hnames : ∀ name, (earlier.map (·.tx)).flatMap
      (fun tx => aliasEntries env tx.toTransactionPrefix name) =
        earlier.flatMap fun e => aliasEntries env e.tx.toTransactionPrefix name := by
    intro name
    exact List.flatMap_map _ _ _
  constructor
  · intro hfits
    refine ⟨fun _ => hfits.inputs, hfits.fresh, ?_⟩
    intro ai hai
    rw [← hnames]
    exact hfits.granted ai hai
  · intro hfits
    refine ⟨?_, hfits.fresh, ?_⟩
    · rcases h.checked with htrust | ⟨used, hin⟩
      · exact hfits.inputs htrust
      · exact ⟨used, (keepsReads_withKnown s _).checkInputs h.unspent hin⟩
    · intro ai hai
      rw [hnames]
      exact hfits.granted ai hai

theorem chosen_ids {p : TxMemoryPool} {ids : List Hash}
    (h : ∀ id ∈ ids, ∃ txd, p.mTransactions[id]? = some txd ∧ getTransactionHash env txd.tx = id) :
    (p.chosen ids).map (fun txd => getTransactionHash env txd.tx) = ids := by
  induction ids with
  | nil => rfl
  | cons id rest ih =>
    rw [List.forall_mem_cons] at h
    obtain ⟨⟨txd, hentry, hid⟩, hrest⟩ := h
    unfold chosen at ih ⊢
    rw [List.filterMap_cons, hentry]
    simp only
    rw [List.map_cons, hid, ih hrest]

end

/-- What is picked from a node's pool is a compatible batch. -/
theorem Reachable.picked_compatible {env : Env} {now : Nat} {n : Node} (hn : Reachable env n)
    {ids : List Hash}
    (hready : ∀ id ∈ ids, ∃ txd, n.pool.mTransactions[id]? = some txd ∧ Ready env now n.chain txd)
    (himages : (imagesOf (n.pool.chosen ids)).Nodup) :
    Compatible env n.chain ((n.pool.chosen ids).map (·.tx)) := by
  have hentry : ∀ txd ∈ n.pool.chosen ids, ∃ id ∈ ids, n.pool.mTransactions[id]? = some txd := by
    intro txd htxd
    exact List.mem_filterMap.1 htxd
  refine ⟨?_, ?_, ?_, ?_⟩
  · intro tx htx
    obtain ⟨txd, htxd, rfl⟩ := List.mem_map.1 htx
    obtain ⟨id, -, hid⟩ := hentry txd htxd
    exact (hn.pool_intake hid).2.extra
  · -- two entries with one id are one entry, and it would share key images with itself
    rw [List.map_map]
    unfold imagesOf at himages
    rw [List.nodup_flatMap] at himages
    refine List.pairwise_map.2 (himages.2.imp_of_mem ?_)
    intro a b ha hb hdisj hsame
    obtain ⟨ida, -, hida⟩ := hentry a ha
    obtain ⟨idb, -, hidb⟩ := hentry b hb
    have heq : ida = idb := by
      rw [← (hn.pool_intake hida).1, ← (hn.pool_intake hidb).1]
      exact hsame
    rw [heq, hidb] at hida
    cases hida
    obtain ⟨k, hk⟩ := List.exists_mem_of_ne_nil _ (hn.pool_intake hidb).2.spends
    exact hdisj hk hk
  · rw [List.flatMap_map]
    exact himages
  · intro tx htx
    obtain ⟨txd, htxd, rfl⟩ := List.mem_map.1 htx
    obtain ⟨id, hid, hfound⟩ := hentry txd htxd
    obtain ⟨txd', hfound', hr⟩ := hready id hid
    cases hfound.symm.trans hfound'
    exact hr.unspent

/-- **The transactions of a template can all be applied** exactly when each of
them fits behind the ones before it. -/
theorem template_txs_apply_iff {env : Env} {now : Nat} {n : Node} (hn : Reachable env n)
    {txs : List (Hash × TxDetails)} {medianSize height : Nat} {generated : UInt64} {f : Filled}
    (htxs : ∀ e ∈ txs, n.pool.mTransactions[e.1]? = some e.2)
    (h : n.pool.fillBlockTemplate env now n.chain txs medianSize generated height = .ok (some f)) :
    (n.pool.chosen f.txHashes).map (fun txd => getTransactionHash env txd.tx) = f.txHashes ∧
      (AppliesAll env now 0 ((n.pool.chosen f.txHashes).map (·.tx)) n.chain ↔
        ∀ k txd, (n.pool.chosen f.txHashes)[k]? = some txd →
          TemplateFits env now n.chain ((n.pool.chosen f.txHashes).take k) txd) := by
  obtain ⟨hready, himages⟩ := fillBlockTemplate_picked
    (fun id txd hid => (hn.pool_intake hid).2.images) htxs h
  have hcompatible := hn.picked_compatible hready himages
  refine ⟨chosen_ids ?_, ?_⟩
  · intro id hid
    obtain ⟨txd, hentry, -⟩ := hready id hid
    exact ⟨txd, hentry, (hn.pool_intake hentry).1⟩
  · have hall := (Pending.refl env n.chain).appliesAll_iff hn.flagsFit now 0 hcompatible
    rw [hall]
    have hone : ∀ k txd, (n.pool.chosen f.txHashes)[k]? = some txd →
        (Fits env now n.chain ([] ++ ((n.pool.chosen f.txHashes).map (·.tx)).take k) txd.tx ↔
          TemplateFits env now n.chain ((n.pool.chosen f.txHashes).take k) txd) := by
      intro k txd hk
      obtain ⟨id, hid, hfound⟩ := List.mem_filterMap.1 (List.mem_of_getElem? hk)
      obtain ⟨txd', hfound', hr⟩ := hready id hid
      cases hfound.symm.trans hfound'
      rw [List.nil_append, ← List.map_take]
      exact hr.fits_iff _
    constructor
    · intro hfits k txd hk
      refine (hone k txd hk).1 (hfits k txd.tx ?_)
      rw [List.getElem?_map, hk]
      rfl
    · intro hfits k tx hk
      rw [List.getElem?_map] at hk
      obtain ⟨txd, htxd, rfl⟩ := Option.map_eq_some_iff.1 hk
      exact (hone k txd htxd).2 (hfits k txd htxd)

namespace Devnet

/-- The transaction that registers an alias is sent, and then a coinbase
registers the same one. -/
def aliasSent : List Event := longLine ++ [.incomingTx aliasBlob false]
def aliasRegistered : List Event :=
  aliasSent ++ [.newBlock (block 60 60 59 (coinbase 60 1 0 aliasExtra) [])]

/-- Its entry in the pool. -/
def aliasEntry : TxDetails := details env now aliasSpend fee false (some (0, 1))

/-- `fill_block_template`, as `create_block_template` calls it. -/
def fill (n : Node) : Except Exn (Option Filled) :=
  n.pool.fillBlockTemplate env now n.chain n.pool.mTransactions.toList
    (n.chain.mCurrentBlockCumulSzLimit / 2) (alreadyGeneratedCoins n.chain.mBlocks)
    n.chain.mBlocks.length

def picks (n : Node) : Option (List TxDetails) :=
  match fill n with
  | .ok (some f) => some (n.pool.chosen f.txHashes)
  | _ => none

theorem exists_fill {n : Node} {txds : List TxDetails} (h : picks n = some txds) :
    ∃ f, fill n = .ok (some f) ∧ n.pool.chosen f.txHashes = txds := by
  unfold picks at h
  split at h
  · next f hf => exact ⟨f, hf, Option.some.inj h⟩
  · cases h

/-- The transaction was recorded, as a check. -/
def isRecorded : EStateM.Result Exn Storage (Option TransactionEntry) → Bool
  | .ok (some _) _ => true
  | _ => false

end Devnet

/-- The alias is free: the transaction that registers it can be mined. -/
theorem template_txs_apply_alias_free :
    ∃ n f, Reachable Devnet.env n ∧ Devnet.fill n = .ok (some f) ∧
      n.pool.chosen f.txHashes = [Devnet.aliasEntry] ∧
      AppliesAll Devnet.env Devnet.now 0 ((n.pool.chosen f.txHashes).map (·.tx)) n.chain := by
  have heval : (Devnet.run ∅ Devnet.aliasSent).isSome = true ∧
      Devnet.picks (Devnet.node ∅ Devnet.aliasSent) = some [Devnet.aliasEntry] ∧
      (Devnet.node ∅ Devnet.aliasSent).chain.checkTxInputs Devnet.env Devnet.now Devnet.aliasSpend =
        .ok (some 0) ∧
      (Devnet.node ∅ Devnet.aliasSent).chain.mTransactions.contains
        (getTransactionHash Devnet.env Devnet.aliasEntry.tx) = false ∧
      (txAlias Devnet.env Devnet.aliasEntry.tx.toTransactionPrefix).all (fun ai =>
        nameGranted Devnet.env (aliasHistory (Devnet.node ∅ Devnet.aliasSent).chain ai.mAlias) ai) =
          true := by
    decide +kernel
  obtain ⟨hrun, hpicks, hin, hfresh, hname⟩ := heval
  have hreach := Devnet.reachable_node ∅ Devnet.aliasSent hrun
  generalize Devnet.node ∅ Devnet.aliasSent = n at hpicks hin hfresh hname hreach
  obtain ⟨f, hfill, hchosen⟩ := Devnet.exists_fill hpicks
  refine ⟨n, f, hreach, hfill, hchosen, ?_⟩
  refine (template_txs_apply_iff hreach (entry_of_toList rfl) hfill).2.2 ?_
  rw [hchosen]
  intro k txd hk
  cases k with
  | zero =>
    cases hk
    refine ⟨fun _ => ⟨0, ?_⟩, hfresh, ?_⟩
    · rw [List.take_zero, List.map_nil, Storage.withKnown_nil]
      exact hin
    · intro ai hai
      rw [hai, Option.all_some] at hname
      rw [List.take_zero, List.flatMap_nil, List.append_nil]
      exact hname
  | succ k => cases hk

/-- The alias is on the chain: the transaction that registers it is picked all the
same, and cannot be recorded. -/
theorem registered_alias_picked :
    ∃ n f, Reachable Devnet.env n ∧ Devnet.fill n = .ok (some f) ∧
      n.pool.chosen f.txHashes = [Devnet.aliasEntry] ∧
      ¬ AppliesAll Devnet.env Devnet.now 0 ((n.pool.chosen f.txHashes).map (·.tx)) n.chain := by
  have heval : (Devnet.run ∅ Devnet.aliasRegistered).isSome = true ∧
      Devnet.picks (Devnet.node ∅ Devnet.aliasRegistered) = some [Devnet.aliasEntry] ∧
      Devnet.isRecorded (addTransactionFromBlock Devnet.env Devnet.aliasEntry.tx
        (getTransactionHash Devnet.env Devnet.aliasEntry.tx)
        (Devnet.node ∅ Devnet.aliasRegistered).chain.mBlocks.length (UInt16.ofNat (0 + 1))
        (Devnet.node ∅ Devnet.aliasRegistered).chain) = false := by
    decide +kernel
  obtain ⟨hrun, hpicks, hrefused⟩ := heval
  have hreach := Devnet.reachable_node ∅ Devnet.aliasRegistered hrun
  generalize Devnet.node ∅ Devnet.aliasRegistered = n at hpicks hrefused hreach
  obtain ⟨f, hfill, hchosen⟩ := Devnet.exists_fill hpicks
  refine ⟨n, f, hreach, hfill, hchosen, ?_⟩
  rw [hchosen]
  intro happlies
  obtain ⟨used, txe, s', -, hadd, -⟩ := happlies
  rw [hadd] at hrefused
  cases hrefused

end DarknetSpace
