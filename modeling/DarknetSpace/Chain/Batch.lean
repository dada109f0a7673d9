import DarknetSpace.Chain.Undo

/-!
# Transactions applied one after the other

Every transaction of a block is checked against what the ones before it have
left: `check_tx_inputs`, then `add_transaction_from_block`. What has been
recorded for a block that is not in `m_blocks` yet cannot be read, so the ring
of a later transaction sees the chain as it was; it is only the key images, the
transaction ids and the alias histories that move on. This file turns the
sequence of checks into one condition per transaction on the storage before any
of them was applied.

`AppliesAll` is the sequence of checks with the writes in between, and `Pending` what of
the storage they are checked on is still as it was before the first. What a batch
changes for a later transaction is put together from the names of those before it, so
that `Fits` can say the condition on each on the storage before all of them
(`Pending.appliesAll_iff`). Templates are the use: they are chosen on one storage and
applied one by one.
-/

namespace DarknetSpace

open StateExn

/-! ## Reading the same ring from another storage -/

/-- What can be read in `a` reads the same in `b`. -/
structure KeepsReads (a b : Storage) : Prop where
  blocks : forgetFlags b.mBlocks = forgetFlags a.mBlocks
  transactions : ∀ id, a.mTransactions.contains id = true → b.mTransactions.contains id = true
  outputs : ∀ amount (g : Nat) p, (a.mOutputs.getD amount [])[g]? = some p →
    p.1.block < a.mBlocks.length → (b.mOutputs.getD amount [])[g]? = some p
  zone : b.mIsInCheckpointZone = a.mIsInCheckpointZone

/-- What `scan_outputkeys_for_indexes` accepts. -/
theorem scanOutput_eq_some {env : Env} {now size : Nat} {s : Storage} {outs : AmountOuts}
    {i : UInt64} {k : PublicKey × Nat} :
    s.scanOutput env now outs size i = .ok (some k) ↔
      ∃ p txe o key mix, outs[i.toNat]? = some p ∧ s.transactionByIndex p.1 = .ok txe ∧
        s.mTransactions.contains (getTransactionHash env txe.tx) = true ∧
        txe.tx.vout[p.2.toNat]? = some o ∧ o.target = .toKey key mix ∧
        (Storage.mixAttrAllows mix size && s.isTxSpendtimeUnlocked now txe.tx.unlockTime) = true ∧
        k = (key, txe.mKeeperBlockHeight) := by
  unfold Storage.scanOutput
  constructor
  · intro h
    split at h
    · cases h
    · next idx out hp =>
      split at h
      · cases h
      · next txe ht =>
        split at h
        · cases h
        · next hc =>
          split at h
          · cases h
          · next o ho =>
            split at h
            · next key mix htarget =>
              split at h
              · next hok =>
                cases h
                exact ⟨(idx, out), txe, o, key, mix, hp, ht, Classical.not_not.1 hc, ho, htarget, hok,
                  rfl⟩
              · cases h
            · cases h
  · intro ⟨⟨idx, out⟩, txe, o, key, mix, hp, ht, hc, ho, htarget, hok, hk⟩
    simp only [hp, ht, hc, ho, htarget, hok, hk, not_true_eq_false, if_false, if_true]

section

variable {env : Env} {now : Nat} {a b : Storage}

theorem KeepsReads.scanOutput (h : KeepsReads a b) {size : Nat} {outs outs' : AmountOuts} {i : UInt64}
    {k : PublicKey × Nat}
    (houts : ∀ p, outs[i.toNat]? = some p → p.1.block < a.mBlocks.length →
      outs'[i.toNat]? = some p)
    (hs : a.scanOutput env now outs size i = .ok (some k)) :
    b.scanOutput env now outs' size i = .ok (some k) := by
  obtain ⟨p, txe, o, key, mix, hp, ht, hc, ho, htarget, hok, hk⟩ := scanOutput_eq_some.1 hs
  obtain ⟨e, he, -⟩ := transactionByIndex_eq_ok.1 ht
  have hlt : p.1.block < a.mBlocks.length := (List.getElem?_eq_some_iff.1 he).1
  have hprefix : forgetFlags a.mBlocks <+: forgetFlags b.mBlocks := h.blocks ▸ List.prefix_rfl
  obtain ⟨txe', ht', hf⟩ := transactionByIndex_of_isPrefix hprefix ht
  have htx : txe'.tx = txe.tx := TransactionEntry.tx_of_forgetFlags hf
  have hkeeper : txe'.mKeeperBlockHeight = txe.mKeeperBlockHeight := by
    have := congrArg TransactionEntry.mKeeperBlockHeight hf
    exact this
  have hlock : b.isTxSpendtimeUnlocked now txe.tx.unlockTime =
      a.isTxSpendtimeUnlocked now txe.tx.unlockTime := by
    unfold Storage.isTxSpendtimeUnlocked Storage.getCurrentBlockchainHeight
    rw [length_eq_of_forgetFlags h.blocks]
  refine scanOutput_eq_some.2 ⟨p, txe', o, key, mix, houts p hp hlt, ht', ?_, ?_, htarget, ?_, ?_⟩
  · rw [htx]
    exact h.transactions _ hc
  · rw [htx]
    exact ho
  · rw [htx, hlock]
    exact hok
  · rw [hkeeper]
    exact hk

theorem KeepsReads.scanOutputs (h : KeepsReads a b) {size : Nat} {outs outs' : AmountOuts}
    {offs : List UInt64} {ring : List (PublicKey × Nat)}
    (houts : ∀ (g : Nat) p, outs[g]? = some p → p.1.block < a.mBlocks.length → outs'[g]? = some p)
    (hs : a.scanOutputs env now outs size offs = .ok (some ring)) :
    b.scanOutputs env now outs' size offs = .ok (some ring) := by
  induction offs generalizing ring with
  | nil =>
    cases hs
    rfl
  | cons i rest ih =>
    unfold Storage.scanOutputs at hs ⊢
    split at hs
    · cases hs
    · cases hs
    · next k hk =>
      rw [h.scanOutput (houts i.toNat) hk]
      simp only
      split at hs
      · next ks hks =>
        cases hs
        rw [ih hks]
      · next hne => exact absurd hs (hne ring)

/-- The lookup of the amount can be left out. -/
theorem scanOutputkeys_eq_some {s : Storage} {amount : UInt64} {offs : List UInt64}
    {ring : List (PublicKey × Nat)} :
    s.scanOutputkeysForIndexes env now amount offs = .ok (some ring) ↔
      offs ≠ [] ∧ s.scanOutputs env now (s.mOutputs.getD amount []) offs.length
        (relativeOutputOffsetsToAbsolute offs) = .ok (some ring) := by
  unfold Storage.scanOutputkeysForIndexes
  cases houts : s.mOutputs[amount]? with
  | none =>
    have hnil : s.mOutputs.getD amount [] = [] := by
      rw [Std.ExtTreeMap.getD_eq_getD_getElem?, houts]
      rfl
    constructor
    · intro h
      cases h
    · intro ⟨hne, h⟩
      cases offs with
      | nil => exact absurd rfl hne
      | cons o rest =>
        rw [hnil] at h
        cases h
  | some outs =>
    rw [getD_of_getElem? houts]
    simp only
    by_cases hempty : offs = []
    · rw [if_pos hempty]
      exact ⟨fun h => (nomatch h), fun h => absurd hempty h.1⟩
    · rw [if_neg hempty]
      exact ⟨fun h => ⟨hempty, h⟩, fun h => h.2⟩

theorem KeepsReads.checkTxInput (h : KeepsReads a b) {amount : UInt64} {offs : List UInt64}
    {ki : KeyImage} {hash : Hash} {sig : List Signature} {m used : Nat}
    (hc : a.checkTxInput env now amount offs ki hash sig m = .ok (some used)) :
    b.checkTxInput env now amount offs ki hash sig m = .ok (some used) := by
  unfold Storage.checkTxInput at hc ⊢
  split at hc
  · cases hc
  · cases hc
  · next ring hring =>
    obtain ⟨hne, hscan⟩ := scanOutputkeys_eq_some.1 hring
    rw [scanOutputkeys_eq_some.2 ⟨hne, h.scanOutputs (h.outputs amount) hscan⟩]
    simp only
    rw [h.zone]
    exact hc

/-- The check comes to the same, as long as the key images are new to `b`. -/
theorem KeepsReads.checkInputs (h : KeepsReads a b) {hash : Hash} {vin : List Txin}
    {sigs : List (List Signature)} {m used : Nat}
    (hfresh : ∀ k ∈ keyImages vin, k ∉ b.mSpentKeys)
    (hc : a.checkInputs env now hash vin sigs m = .ok (some used)) :
    b.checkInputs env now hash vin sigs m = .ok (some used) := by
  induction vin generalizing sigs m with
  | nil =>
    unfold Storage.checkInputs at hc ⊢
    rw [h.zone]
    exact hc
  | cons i rest ih =>
    cases i with
    | toKey amount offs ki =>
      rw [keyImages_toKey_cons, List.forall_mem_cons] at hfresh
      have hki : b.haveTxKeyimgAsSpent ki = false := by
        have := hfresh.1
        rwa [Std.ExtTreeSet.mem_iff_contains, Bool.not_eq_true] at this
      simp only [Storage.checkInputs] at hc ⊢
      split at hc
      · cases hc
      · next hne =>
        rw [if_neg hne, hki, if_neg Bool.false_ne_true, h.zone]
        split at hc
        · cases hc
        · split at hc
          · cases hc
          · next hsigs =>
            rw [if_neg hsigs]
            split at hc
            · next m' hm =>
              rw [h.checkTxInput hm]
              exact ih hfresh.2 hc
            · next hno => exact absurd hc (hno used)
    | gen => cases hc
    | toScript => cases hc
    | toScripthash => cases hc

end

/-! ## Direct spends -/

/-- Every output has a flag. -/
def FlagsFit (bs : List BlockEntry) : Prop :=
  ∀ e ∈ bs, ∀ t ∈ e.transactions, t.mSpentFlags.length = t.tx.vout.length

theorem FlagsFit.of_forgetFlags {bs bs' : List BlockEntry} (h : FlagsFit bs)
    (hb : forgetFlags bs' = forgetFlags bs) : FlagsFit bs' := by
  intro e he t ht
  have hmem : e.forgetFlags ∈ forgetFlags bs := by
    rw [← hb]
    exact List.mem_map_of_mem he
  obtain ⟨e', he', heq⟩ := List.mem_map.1 hmem
  have hentry : t.forgetFlags ∈ e'.forgetFlags.transactions := by
    rw [heq]
    exact List.mem_map_of_mem ht
  obtain ⟨t', ht', hf⟩ := List.mem_map.1 hentry
  rw [← TransactionEntry.flags_length_of_forgetFlags hf, ← TransactionEntry.tx_of_forgetFlags hf]
  exact h e' he' t' ht'

section

variable {env : Env} {now : Nat} {s : Storage}

/-- A ring of one output that was accepted has a flag to set. -/
theorem checkInputs_directResolves (hflags : FlagsFit s.mBlocks) {hash : Hash} {vin : List Txin}
    {sigs : List (List Signature)} {m used : Nat}
    (h : s.checkInputs env now hash vin sigs m = .ok (some used)) :
    ∀ i ∈ vin, DirectResolves env s i := by
  induction vin generalizing sigs m with
  | nil =>
    intro i hi
    cases hi
  | cons i rest ih =>
    cases i with
    | toKey amount offs ki =>
      simp only [Storage.checkInputs] at h
      split at h
      · cases h
      · split at h
        · cases h
        · split at h
          · cases h
          · split at h
            · next m' hm =>
              intro j hj
              rcases List.mem_cons.1 hj with rfl | hj
              · intro amount' g ki' heq
                cases heq
                unfold Storage.checkTxInput at hm
                split at hm
                · cases hm
                · cases hm
                · next ring hring =>
                  obtain ⟨-, hscan⟩ := scanOutputkeys_eq_some.1 hring
                  have hhead : ∃ k, s.scanOutput env now (s.mOutputs.getD amount []) 1 (0 + g) =
                      .ok (some k) := by
                    have hscan : s.scanOutputs env now (s.mOutputs.getD amount []) 1 [0 + g] =
                        .ok (some ring) := hscan
                    unfold Storage.scanOutputs at hscan
                    split at hscan
                    · cases hscan
                    · cases hscan
                    · next k hk => exact ⟨k, hk⟩
                  obtain ⟨k, hk⟩ := hhead
                  rw [UInt64.zero_add] at hk
                  -- the ring has one output, and the scan has read its flag's transaction
                  obtain ⟨p, txe, o, key, mix, hp, ht, hc, ho, -⟩ := scanOutput_eq_some.1 hk
                  obtain ⟨e, he, hte⟩ := transactionByIndex_eq_ok.1 ht
                  have hlen := hflags e (List.mem_of_getElem? he) txe (List.mem_of_getElem? hte)
                  refine ⟨p, txe, hp, ht, hc, ?_⟩
                  rw [hlen]
                  exact (List.getElem?_eq_some_iff.1 ho).1
              · exact ih h j hj
            · next hne => exact absurd h (hne used)
    | gen => cases h
    | toScript => cases h
    | toScripthash => cases h

/-- Inputs with new key images whose direct spends resolve are accepted. -/
theorem addTransactionInputs_of_resolves {vin : List Txin} {d : Storage}
    (hk : ∀ k ∈ keyImages vin, k ∉ d.mSpentKeys) (hnd : (keyImages vin).Nodup)
    (hrec : ∀ i ∈ vin, i.Recordable) (hr : ∀ i ∈ vin, DirectResolves env d i) :
    ∃ d', addTransactionInputs env vin d = .ok true d' := by
  induction vin generalizing d with
  | nil => exact ⟨d, rfl⟩
  | cons i rest ih =>
    have hrec' : ∀ j ∈ rest, j.Recordable := fun j hj => hrec j (List.mem_cons_of_mem _ hj)
    have hr' : ∀ j ∈ rest, DirectResolves env d j := fun j hj => hr j (List.mem_cons_of_mem _ hj)
    cases i with
    | toKey amount offs ki =>
      rw [keyImages_toKey_cons] at hk hnd
      rw [List.nodup_cons] at hnd
      rw [List.forall_mem_cons] at hk
      have hki : ¬ d.mSpentKeys.contains ki = true := by
        rw [← Std.ExtTreeSet.mem_iff_contains]
        exact hk.1
      have hres : DirectResolves env { d with mSpentKeys := d.mSpentKeys.insert ki }
          (.toKey amount offs ki) := hr _ List.mem_cons_self
      obtain ⟨d₁, hd₁⟩ : ∃ d₁, addTransactionInput env (.toKey amount offs ki) d = .ok true d₁ := by
        simp only [addTransactionInput]
        rw [if_neg hki]
        exact ⟨_, updateFlagsOfDirectSpend_of_resolves true hres⟩
      have hsame : d.withoutSpends = d₁.withoutSpends := by
        have := addTransactionInput_withoutSpends env (.toKey amount offs ki) d
        rw [hd₁] at this
        exact this.symm
      have hspent : d₁.mSpentKeys = d.mSpentKeys.insertMany [ki] := by
        rw [(addTransactionInput_true hd₁).state]
        rfl
      obtain ⟨d', hd'⟩ := ih (d := d₁) (by
        intro k hk'
        rw [hspent, Std.ExtTreeSet.mem_insertMany_list]
        intro hmem
        rcases hmem with hmem | hmem
        · exact hk.2 k hk' hmem
        · have hkk : k = ki := by simpa using hmem
          exact hnd.1 (hkk ▸ hk')) hnd.2 hrec' fun j hj => (hr' j hj).of_withoutSpends hsame
      exact ⟨d', (bind_of_ok hd₁).trans hd'⟩
    | gen g =>
      obtain ⟨d', hd'⟩ := ih hk hnd hrec' hr'
      exact ⟨d', hd'⟩
    | toScript => exact absurd (hrec _ List.mem_cons_self) (by simp [Txin.Recordable])
    | toScripthash => exact absurd (hrec _ List.mem_cons_self) (by simp [Txin.Recordable])

end

/-! ## Names -/

/-- `put_alias_info` on a name with that history: the first entry is not signed,
a later one is, by the holder of the last. -/
def nameGranted (env : Env) (history : List AliasInfoBase) (ai : AliasInfo) : Bool :=
  match history.getLast? with
  | none => decide (ai.mSign = nullSig)
  | some last =>
    decide (ai.mSign ≠ nullSig) &&
      env.checkSignature (env.hashBlob (makeTxExtraAliasEntryToSign ai))
        last.mAddress.mSpendPublicKey ai.mSign

theorem putAliasInfo_fst {env : Env} {ai : AliasInfo} (hne : ai.mAlias ≠ []) (s : Storage) :
    (putAliasInfo env ai s).1 = nameGranted env (aliasHistory s ai.mAlias) ai := by
  unfold putAliasInfo nameGranted
  rw [if_neg hne]
  simp only
  cases (aliasHistory s ai.mAlias).getLast? with
  | none =>
    simp only
    by_cases hsign : ai.mSign = nullSig
    · rw [if_pos hsign, decide_eq_true hsign]
    · rw [if_neg hsign, decide_eq_false hsign]
  | some last =>
    simp only
    by_cases hsign : ai.mSign = nullSig
    · rw [if_pos hsign, decide_eq_false (fun hneq => hneq hsign), Bool.false_and]
    · rw [if_neg hsign, decide_eq_true hsign, Bool.true_and]
      cases env.checkSignature (env.hashBlob (makeTxExtraAliasEntryToSign ai))
        last.mAddress.mSpendPublicKey ai.mSign <;> rfl

/-- The alias of a transaction is taken when its name is granted. -/
theorem processBlockchainTxExtra_granted {env : Env} {tx : Transaction} {ei : TxExtraInfo}
    (hp : parseAndValidateTxExtra env tx.toTransactionPrefix = .ok (true, ei)) (s : Storage) :
    (∃ sa, processBlockchainTxExtra env tx s = .ok true sa) ↔
      ∀ ai, txAlias env tx.toTransactionPrefix = some ai →
        nameGranted env (aliasHistory s ai.mAlias) ai = true := by
  unfold processBlockchainTxExtra txAlias
  rw [hp]
  simp only
  by_cases hempty : ei.mAlias.mAlias = []
  · rw [if_pos hempty, if_pos hempty]
    exact ⟨fun _ _ h => (nomatch h), fun _ => ⟨s, rfl⟩⟩
  · rw [if_neg hempty, if_neg hempty, putAliasInfo_fst hempty]
    constructor
    · intro ⟨sa, h⟩ ai hai
      cases hai
      cases hg : nameGranted env (aliasHistory s ei.mAlias.mAlias) ei.mAlias with
      | false =>
        rw [hg] at h
        cases h
      | true => rfl
    · intro h
      rw [h _ rfl]
      exact ⟨_, rfl⟩

/-! ## A batch -/

/-- `check_tx_inputs` and `add_transaction_from_block` pass for each of the
transactions in turn, from the `processed`-th of the block on. -/
def AppliesAll (env : Env) (now : Nat) : (processed : Nat) → List Transaction → Storage → Prop
  | _, [], _ => True
  | processed, tx :: rest, s =>
    ∃ used txe s', s.checkTxInputs env now tx = .ok (some used) ∧
      addTransactionFromBlock env tx (getTransactionHash env tx) s.mBlocks.length
        (UInt16.ofNat (processed + 1)) s = .ok (some txe) s' ∧
      AppliesAll env now (processed + 1) rest s'

/-- The storage with some transactions known by their ids, and nothing else of
them. -/
def Storage.withKnown (env : Env) (s : Storage) (txs : List Transaction) : Storage :=
  { s with
    mTransactions := txs.foldl
      (fun m tx => m.insert (getTransactionHash env tx) ⟨s.mBlocks.length, 0⟩) s.mTransactions }

theorem Storage.withKnown_nil (env : Env) (s : Storage) : s.withKnown env [] = s := rfl

/-- A transaction that can be applied to `s` behind others. -/
structure Fits (env : Env) (now : Nat) (s : Storage) (earlier : List Transaction)
    (tx : Transaction) : Prop where
  inputs : ∃ used, (s.withKnown env earlier).checkTxInputs env now tx = .ok (some used)
  fresh : s.mTransactions.contains (getTransactionHash env tx) = false
  granted : ∀ ai, txAlias env tx.toTransactionPrefix = some ai →
    nameGranted env (aliasHistory s ai.mAlias ++
      earlier.flatMap fun tx' => aliasEntries env tx'.toTransactionPrefix ai.mAlias) ai = true

/-- What is sure about a batch beforehand: valid extra fields, different ids, and
key images that are all different and new to `s`. -/
structure Compatible (env : Env) (s : Storage) (txs : List Transaction) : Prop where
  extra : ∀ tx ∈ txs, ∃ ei, parseAndValidateTxExtra env tx.toTransactionPrefix = .ok (true, ei)
  ids : (txs.map (getTransactionHash env)).Nodup
  images : (txs.flatMap fun tx => keyImages tx.vin).Nodup
  unspent : ∀ tx ∈ txs, ∀ k ∈ keyImages tx.vin, k ∉ s.mSpentKeys

/-- Some transactions were recorded on top of `s`, in a block that is not in
`m_blocks`. -/
structure Pending (env : Env) (s : Storage) (txs : List Transaction) (d : Storage) : Prop where
  blocks : forgetFlags d.mBlocks = forgetFlags s.mBlocks
  outputs : OutputsGrow s.mBlocks.length s.mOutputs d.mOutputs
  transactions : ∀ id, d.mTransactions.contains id = true ↔
    s.mTransactions.contains id = true ∨ id ∈ txs.map (getTransactionHash env)
  spent : ∀ k, k ∈ d.mSpentKeys ↔ k ∈ s.mSpentKeys ∨ k ∈ txs.flatMap fun tx => keyImages tx.vin
  zone : d.mIsInCheckpointZone = s.mIsInCheckpointZone
  aliases : ∀ name, aliasHistory d name = aliasHistory s name ++
    txs.flatMap fun tx => aliasEntries env tx.toTransactionPrefix name

theorem Storage.contains_withKnown {env : Env} {s : Storage} {txs : List Transaction} (id : Hash) :
    (s.withKnown env txs).mTransactions.contains id = true ↔
      s.mTransactions.contains id = true ∨ id ∈ txs.map (getTransactionHash env) := by
  have hfold : ∀ (m : Map Hash TransactionIndex), (txs.foldl
      (fun m tx => m.insert (getTransactionHash env tx) ⟨s.mBlocks.length, 0⟩) m).contains id = true ↔
        m.contains id = true ∨ id ∈ txs.map (getTransactionHash env) := by
    induction txs with
    | nil =>
      intro m
      simp
    | cons tx rest ih =>
      intro m
      rw [List.foldl_cons, ih, Std.ExtTreeMap.contains_insert, List.map_cons, List.mem_cons,
        Bool.or_eq_true, beq_iff_eq, Std.LawfulEqCmp.compare_eq_iff_eq, eq_comm, or_assoc,
        or_left_comm]
  exact hfold s.mTransactions

namespace Pending

variable {env : Env} {now : Nat} {s d : Storage} {txs : List Transaction}

theorem refl (env : Env) (s : Storage) : Pending env s [] s where
  blocks := rfl
  outputs := .refl _ _
  transactions id := by simp
  spent k := by simp
  zone := rfl
  aliases name := by simp

theorem keepsReads (h : Pending env s txs d) : KeepsReads (s.withKnown env txs) d where
  blocks := h.blocks
  transactions id hid := (h.transactions id).2 ((Storage.contains_withKnown id).1 hid)
  outputs _ _ _ hp _ := h.outputs.getElem? hp
  zone := h.zone

theorem keepsReads_back (h : Pending env s txs d) : KeepsReads d (s.withKnown env txs) where
  blocks := h.blocks.symm
  transactions id hid := (Storage.contains_withKnown id).2 ((h.transactions id).1 hid)
  outputs _ _ _ hp hlt := by
    rw [length_eq_of_forgetFlags h.blocks] at hlt
    exact h.outputs.getElem?_of_block_ne hp (by omega)
  zone := h.zone.symm

/-- One more is recorded. -/
theorem record (h : Pending env s txs d) {tx : Transaction} {i : UInt16} {sa d' : Storage}
    {txe : TransactionEntry}
    (hr : TxRecorded env tx (getTransactionHash env tx) ⟨d.mBlocks.length, i⟩ d sa d' txe) :
    Pending env s (txs ++ [tx]) d' := by
  have hlen := length_eq_of_forgetFlags h.blocks
  have hframe := hr.frame
  refine ⟨?_, ?_, ?_, ?_, ?_, ?_⟩
  · have := congrArg Storage.mBlocks hframe
    exact Eq.trans this h.blocks
  · rw [hr.outputs]
    refine h.outputs.trans ?_
    rw [← hlen]
    exact outputsGrow_pushOutputs ⟨d.mBlocks.length, i⟩ 0 tx.vout d.mOutputs
  · intro id
    rw [hr.transactions, Std.ExtTreeMap.contains_insert, Bool.or_eq_true, h.transactions, beq_iff_eq,
      Std.LawfulEqCmp.compare_eq_iff_eq, List.map_append, List.mem_append, List.map_singleton,
      List.mem_singleton, or_comm, or_assoc, eq_comm (a := getTransactionHash env tx)]
  · intro k
    rw [hr.spentKeys, Std.ExtTreeSet.mem_insertMany_list, h.spent, List.flatMap_append,
      List.mem_append, List.flatMap_singleton, or_assoc, List.contains_iff_mem]
  · have := congrArg Storage.mIsInCheckpointZone hframe
    exact Eq.trans this h.zone
  · intro name
    have ha : aliasHistory d' name = aliasHistory sa name := by
      rw [hr.state]
      rfl
    rw [ha, aliasHistory_process hr.extra, h.aliases, List.flatMap_append, List.flatMap_singleton,
      List.append_assoc]

end Pending

theorem addTransactionFromBlock_recorded {env : Env} {tx : Transaction} {txId : Hash} {height : Nat}
    {i : UInt16} {s s' : Storage} {txe : TransactionEntry}
    (h : addTransactionFromBlock env tx txId height i s = .ok (some txe) s') :
    ∃ sa, TxRecorded env tx txId ⟨height, i⟩ s sa s' txe := by
  obtain ⟨txe', s₁, sa, hok, hr⟩ | ⟨s₁, hnone, -⟩ | ⟨e, s₁, herr, -⟩ :=
    addTransactionFromBlock_cases env tx txId height i s
  · cases h.symm.trans hok
    exact ⟨sa, hr⟩
  · cases h.symm.trans hnone
  · cases h.symm.trans herr

/-- The alias, the inputs and a new id are all it takes. -/
theorem addTransactionFromBlock_of_parts {env : Env} {tx : Transaction} {txId : Hash} (height : Nat)
    (i : UInt16) {s sa sb : Storage} (hextra : processBlockchainTxExtra env tx s = .ok true sa)
    (hin : addTransactionInputs env tx.vin sa = .ok true sb)
    (hnew : s.mTransactions.contains txId = false) :
    ∃ txe s', addTransactionFromBlock env tx txId height i s = .ok (some txe) s' := by
  have htxs : sb.mTransactions = s.mTransactions := by
    have hb := (addTransactionInputs_true hin).state
    have ha := congrArg Storage.mTransactions (processBlockchainTxExtra_frame hextra)
    rw [hb]
    exact ha
  have hold : ¬ sb.mTransactions.contains txId = true := by
    rw [htxs, hnew]
    exact Bool.false_ne_true
  unfold addTransactionFromBlock
  rw [bind_of_ok hextra, if_pos rfl, bind_of_ok hin, if_pos rfl, bind_of_ok (get_apply _), if_neg hold]
  simp only [pushTransactionToGlobalOutsIndex_insert]
  rw [bind_of_ok (set_apply _ _)]
  exact ⟨_, _, rfl⟩

section

variable {env : Env} {now : Nat} {s d : Storage} {earlier rest : List Transaction} {tx : Transaction}

theorem Compatible.not_spent (hc : Compatible env s (earlier ++ tx :: rest))
    (h : Pending env s earlier d) : ∀ k ∈ keyImages tx.vin, k ∉ d.mSpentKeys := by
  intro k hk hmem
  rcases (h.spent k).1 hmem with hs | hs
  · exact hc.unspent tx (List.mem_append_right _ List.mem_cons_self) k hk hs
  · have hnd := hc.images
    rw [List.flatMap_append, List.nodup_append] at hnd
    refine hnd.2.2 k hs k ?_ rfl
    rw [List.flatMap_cons]
    exact List.mem_append_left _ hk

theorem Compatible.not_known (hc : Compatible env s (earlier ++ tx :: rest)) :
    getTransactionHash env tx ∉ earlier.map (getTransactionHash env) := by
  intro hmem
  have hnd := hc.ids
  rw [List.map_append, List.nodup_append] at hnd
  exact hnd.2.2 _ hmem _ (by rw [List.map_cons]; exact List.mem_cons_self) rfl

/-- The next of a compatible batch passes both checks exactly when it fits. -/
theorem Pending.applies_iff (h : Pending env s earlier d) (now : Nat)
    (hc : Compatible env s (earlier ++ tx :: rest)) (hflags : FlagsFit s.mBlocks) (i : UInt16) :
    ((∃ used, d.checkTxInputs env now tx = .ok (some used)) ∧
      ∃ txe d', addTransactionFromBlock env tx (getTransactionHash env tx) d.mBlocks.length i d =
        .ok (some txe) d') ↔ Fits env now s earlier tx := by
  have hmem : tx ∈ earlier ++ tx :: rest := List.mem_append_right _ List.mem_cons_self
  obtain ⟨ei, hparse⟩ := hc.extra tx hmem
  -- a name is granted by the histories on the chain and the entries of the transactions before
  have hgranted : (∃ sa, processBlockchainTxExtra env tx d = .ok true sa) ↔
      ∀ ai, txAlias env tx.toTransactionPrefix = some ai →
        nameGranted env (aliasHistory s ai.mAlias ++
          earlier.flatMap fun tx' => aliasEntries env tx'.toTransactionPrefix ai.mAlias) ai = true := by
    rw [processBlockchainTxExtra_granted hparse]
    refine forall_congr' fun ai => ?_
    rw [h.aliases]
  constructor
  · intro ⟨⟨used, hin⟩, txe, d', hadd⟩
    obtain ⟨sa, hr⟩ := addTransactionFromBlock_recorded hadd
    refine ⟨⟨used, ?_⟩, ?_, hgranted.1 ⟨sa, hr.extra⟩⟩
    -- the transactions before have added no output that this one refers to
    · exact h.keepsReads_back.checkInputs (hc.unspent tx hmem) hin
    · have hd : ¬ d.mTransactions.contains (getTransactionHash env tx) = true := by
        rw [Std.ExtTreeMap.contains_eq_isSome_getElem?, hr.fresh]
        exact Bool.false_ne_true
      rw [h.transactions, not_or] at hd
      exact Bool.eq_false_iff.2 hd.1
  · intro ⟨⟨used, hin⟩, hfresh, hname⟩
    have hin : d.checkTxInputs env now tx = .ok (some used) :=
      h.keepsReads.checkInputs (hc.not_spent h) hin
    refine ⟨⟨used, hin⟩, ?_⟩
    obtain ⟨sa, hextra⟩ := hgranted.2 hname
    have hsame := processBlockchainTxExtra_frame hextra
    have hspent : sa.mSpentKeys = d.mSpentKeys := by
      have := congrArg Storage.mSpentKeys hsame
      exact this
    -- an alias touches neither blocks nor outputs nor the index of transactions
    have hlater : Later 0 d sa := by
      have hb : sa.mBlocks = d.mBlocks := by
        have := congrArg Storage.mBlocks hsame
        exact this
      have ho : sa.mOutputs = d.mOutputs := by
        have := congrArg Storage.mOutputs hsame
        exact this
      have ht : sa.mTransactions = d.mTransactions := by
        have := congrArg Storage.mTransactions hsame
        exact this
      exact ⟨hb ▸ List.prefix_rfl, by rw [ho]; exact .refl _ _,
        by rw [ht]; exact fun _ hid => hid⟩
    have hdirect := checkInputs_directResolves (hflags.of_forgetFlags h.blocks) hin
    have hnodup : (keyImages tx.vin).Nodup := by
      have hnd := hc.images
      rw [List.flatMap_append, List.nodup_append, List.flatMap_cons, List.nodup_append] at hnd
      exact hnd.2.1.1
    have hrec : ∀ i ∈ tx.vin, i.Recordable := by
      intro i hi
      obtain ⟨⟨a, offs, ki, rfl⟩, -⟩ := checkInputs_resolves hin i hi
      trivial
    obtain ⟨sb, hsb⟩ := addTransactionInputs_of_resolves (by rw [hspent]; exact hc.not_spent h)
      hnodup hrec fun i hi => hlater.directResolves (hdirect i hi)
    have hnew : d.mTransactions.contains (getTransactionHash env tx) = false := by
      rw [Bool.eq_false_iff]
      intro hcontains
      rcases (h.transactions _).1 hcontains with hold | hold
      · cases hfresh.symm.trans hold
      · exact hc.not_known hold
    exact addTransactionFromBlock_of_parts _ i hextra hsb hnew

end

/-- **A compatible batch applies** exactly when each of its transactions fits
behind the ones before it. -/
theorem Pending.appliesAll_iff {env : Env} {s : Storage} (hflags : FlagsFit s.mBlocks)
    {rest earlier : List Transaction} {d : Storage} (h : Pending env s earlier d)
    (now processed : Nat) (hc : Compatible env s (earlier ++ rest)) :
    AppliesAll env now processed rest d ↔
      ∀ j tx, rest[j]? = some tx → Fits env now s (earlier ++ rest.take j) tx := by
  induction rest generalizing earlier d processed with
  | nil => exact ⟨fun _ j tx hj => (nomatch hj), fun _ => trivial⟩
  | cons tx rest ih =>
    have hstep := h.applies_iff now hc hflags (UInt16.ofNat (processed + 1))
    have hc' : Compatible env s ((earlier ++ [tx]) ++ rest) := by
      rw [List.append_assoc]
      exact hc
    -- the fit of the others, behind this one
    have htail : (∀ j tx', rest[j]? = some tx' → Fits env now s ((earlier ++ [tx]) ++ rest.take j) tx') ↔
        ∀ j tx', (tx :: rest)[j + 1]? = some tx' →
          Fits env now s (earlier ++ (tx :: rest).take (j + 1)) tx' := by
      refine forall_congr' fun j => forall_congr' fun tx' => ?_
      rw [List.getElem?_cons_succ, List.take_succ_cons, List.append_assoc, List.singleton_append]
    unfold AppliesAll
    constructor
    · intro ⟨used, txe, d', hin, hadd, hrest⟩ j tx' hj
      cases j with
      | zero =>
        cases hj
        rw [List.take_zero, List.append_nil]
        exact hstep.1 ⟨⟨used, hin⟩, txe, d', hadd⟩
      | succ j =>
        obtain ⟨sa, hr⟩ := addTransactionFromBlock_recorded hadd
        exact htail.1 ((ih (h.record hr) (processed + 1) hc').1 hrest) j tx' hj
    · intro hfits
      have hfirst := hfits 0 tx rfl
      rw [List.take_zero, List.append_nil] at hfirst
      obtain ⟨⟨used, hin⟩, txe, d', hadd⟩ := hstep.2 hfirst
      obtain ⟨sa, hr⟩ := addTransactionFromBlock_recorded hadd
      refine ⟨used, txe, d', hin, hadd, (ih (h.record hr) (processed + 1) hc').2 ?_⟩
      exact htail.2 fun j tx' hj => hfits (j + 1) tx' hj

end DarknetSpace
