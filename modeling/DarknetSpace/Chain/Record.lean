import DarknetSpace.Lib.FinMap
import DarknetSpace.Chain.Frame

/-!
# What recording a transaction writes

When `add_transaction_from_block` succeeds, the storage it leaves is a plain
function of the storage it found: `recordTx`, on top of the alias writes. When
it does not, the transaction index and the output index are as they were.
These two facts are all the rest of the development uses about it.

The cases of `addTransactionFromBlock_cases` are its ways out. If it goes through,
`TxRecorded` has the aliases written first, the images and flags of the inputs
(`InputsAdded`), the place of the transaction and its outputs. If it is refused it has
put back what it wrote but for the aliases, and the flags of outputs that its inputs
spend directly (`undoRefused_sameTxIndexes`).
-/

namespace DarknetSpace

open StateExn

/-! ## Spent flags of direct spends -/

/-- The flag one input sets: a ring of one output marks that output. -/
def markInput (outputs : Map UInt64 AmountOuts) (spent : Bool) (blocks : List BlockEntry) :
    Txin → List BlockEntry
  | .toKey amount [g] _ =>
    match (outputs.getD amount [])[g.toNat]? with
    | some (idx, out) => setSpentFlag blocks idx out.toNat spent
    | none => blocks
  | _ => blocks

/-- The flags all inputs of a transaction set. -/
def markSpent (outputs : Map UInt64 AmountOuts) (spent : Bool) (vin : List Txin)
    (blocks : List BlockEntry) : List BlockEntry :=
  vin.foldl (markInput outputs spent) blocks

theorem forgetFlags_markInput (outputs : Map UInt64 AmountOuts) (spent : Bool)
    (blocks : List BlockEntry) (i : Txin) :
    forgetFlags (markInput outputs spent blocks i) = forgetFlags blocks := by
  unfold markInput
  split
  · split
    · exact forgetFlags_setSpentFlag ..
    · rfl
  · rfl

theorem forgetFlags_markSpent (outputs : Map UInt64 AmountOuts) (spent : Bool) (vin : List Txin)
    (blocks : List BlockEntry) :
    forgetFlags (markSpent outputs spent vin blocks) = forgetFlags blocks := by
  induction vin generalizing blocks with
  | nil => rfl
  | cons i rest ih =>
    exact (ih (markInput outputs spent blocks i)).trans (forgetFlags_markInput ..)

theorem updateFlagsOfDirectSpend_true {env : Env} {amount : UInt64} {offs : List UInt64}
    {spent : Bool} {s s' : Storage} (ki : KeyImage)
    (h : updateFlagsOfDirectSpend env amount offs spent s = .ok true s') :
    s' = { s with mBlocks := markInput s.mOutputs spent s.mBlocks (.toKey amount offs ki) } := by
  unfold updateFlagsOfDirectSpend at h
  unfold markInput
  split at h
  · next g =>
    obtain ⟨idx, out, ho, h'⟩ | h' | ⟨e, h'⟩ :=
      updateSpentTxFlagsForInput_cases env amount g spent s
    · rw [h'] at h
      cases h
      simp only [ho]
    · rw [h'] at h; cases h
    · rw [h'] at h; cases h
  · next hne =>
    cases h
    split
    · next heq => cases heq; exact absurd rfl (hne _)
    · rfl

/-! ## Inputs -/

/-- An input a block transaction may have: `gen` or `txin_to_key`. -/
def Txin.Recordable : Txin → Prop
  | .gen _ => True
  | .toKey .. => True
  | _ => False

/-- What `addTransactionInputs` wrote when it accepted every input, and what
that says about the inputs. -/
structure InputsAdded (vin : List Txin) (s s' : Storage) : Prop where
  state : s' = { s with
    mSpentKeys := s.mSpentKeys.insertMany (keyImages vin)
    mBlocks := markSpent s.mOutputs true vin s.mBlocks }
  nodup : (keyImages vin).Nodup
  fresh : ∀ k ∈ keyImages vin, k ∉ s.mSpentKeys
  recordable : ∀ i ∈ vin, i.Recordable

theorem addTransactionInput_true {env : Env} {i : Txin} {s s' : Storage}
    (h : addTransactionInput env i s = .ok true s') : InputsAdded [i] s s' := by
  cases i with
  | toKey amount offs ki =>
    simp only [addTransactionInput] at h
    split at h
    · cases h
    · next hk =>
      have hs := updateFlagsOfDirectSpend_true ki h
      refine ⟨?_, by simp [keyImages], ?_, by simp [Txin.Recordable]⟩
      · rw [hs]
        simp [keyImages, markSpent]
      · simpa [keyImages] using hk
  | gen g =>
    cases h
    exact ⟨by simp [keyImages, markSpent, markInput], by simp [keyImages], by simp [keyImages],
      by simp [Txin.Recordable]⟩
  | toScript => cases h
  | toScripthash => cases h

/-- Accepted inputs, one after another. -/
theorem InputsAdded.cons {i : Txin} {rest : List Txin} {s s₁ s₂ : Storage}
    (h₁ : InputsAdded [i] s s₁) (h₂ : InputsAdded rest s₁ s₂) : InputsAdded (i :: rest) s s₂ := by
  have hk : keyImages (i :: rest) = keyImages [i] ++ keyImages rest := by
    unfold keyImages
    rw [← List.filterMap_append]
    rfl
  have hs₁ := h₁.state
  have fresh₂ : ∀ k ∈ keyImages rest, k ∉ s.mSpentKeys.insertMany (keyImages [i]) := by
    intro k hk'
    have := h₂.fresh k hk'
    rw [hs₁] at this
    exact this
  refine ⟨?_, ?_, ?_, ?_⟩
  · rw [h₂.state, hs₁, hk, Std.ExtTreeSet.insertMany_append]
    rfl
  · rw [hk, List.nodup_append]
    refine ⟨h₁.nodup, h₂.nodup, ?_⟩
    rintro a ha b hb rfl
    exact fresh₂ a hb (by rw [Std.ExtTreeSet.mem_insertMany_list]; exact .inr (by simpa using ha))
  · intro k hk'
    rw [hk, List.mem_append] at hk'
    rcases hk' with hk' | hk'
    · exact h₁.fresh k hk'
    · intro hmem
      exact fresh₂ k hk' (by rw [Std.ExtTreeSet.mem_insertMany_list]; exact .inl hmem)
  · intro j hj
    rcases List.mem_cons.1 hj with rfl | hj
    · exact h₁.recordable j (by simp)
    · exact h₂.recordable j hj

theorem addTransactionInputs_true {env : Env} {vin : List Txin} {s s' : Storage}
    (h : addTransactionInputs env vin s = .ok true s') : InputsAdded vin s s' := by
  induction vin generalizing s with
  | nil =>
    cases h
    exact ⟨by simp [keyImages, markSpent], by simp [keyImages], by simp [keyImages], by simp⟩
  | cons i rest ih =>
    obtain ⟨r, s₁, h₁, h₂⟩ := bind_eq_ok.1 h
    cases r with
    | false => cases h₂
    | true => exact (addTransactionInput_true h₁).cons (ih h₂)

/-! ## The whole transaction -/

/-- The writes of a recorded transaction other than its alias. -/
def recordTx (tx : Transaction) (txId : Hash) (idx : TransactionIndex) (s : Storage) : Storage :=
  { s with
    mSpentKeys := s.mSpentKeys.insertMany (keyImages tx.vin)
    mBlocks := markSpent s.mOutputs true tx.vin s.mBlocks
    mTransactions := s.mTransactions.insert txId idx
    mOutputs := (pushOutputs idx 0 tx.vout s.mOutputs).1 }

/-- The entry a recorded transaction leaves in its block. -/
def recordedEntry (tx : Transaction) (idx : TransactionIndex) (outputs : Map UInt64 AmountOuts) :
    TransactionEntry where
  tx
  mKeeperBlockHeight := idx.block
  mGlobalOutputIndexes := (pushOutputs idx 0 tx.vout outputs).2
  mSpentFlags := List.replicate tx.vout.length false

/-- `add_transaction_from_block` succeeded, from `s`, with `sa` the storage
after its alias was written. -/
structure TxRecorded (env : Env) (tx : Transaction) (txId : Hash) (idx : TransactionIndex)
    (s sa s' : Storage) (txe : TransactionEntry) : Prop where
  extra : processBlockchainTxExtra env tx s = .ok true sa
  inputs : addTransactionInputs env tx.vin sa = .ok true
    { sa with
      mSpentKeys := sa.mSpentKeys.insertMany (keyImages tx.vin)
      mBlocks := markSpent sa.mOutputs true tx.vin sa.mBlocks }
  fresh : s.mTransactions[txId]? = none
  state : s' = recordTx tx txId idx sa
  entry : txe = recordedEntry tx idx s.mOutputs

theorem processBlockchainTxExtra_frame {env : Env} {tx : Transaction} {s sa : Storage} {r : Bool}
    (h : processBlockchainTxExtra env tx s = .ok r sa) : sa.withoutAliases = s.withoutAliases := by
  have := processBlockchainTxExtra_withoutAliases env tx s
  rwa [h] at this

/-- The transaction and output indexes of `s`. -/
def SameTxIndexes (s s' : Storage) : Prop :=
  s'.mTransactions = s.mTransactions ∧ s'.mOutputs = s.mOutputs

theorem SameTxIndexes.of_withoutAliases {s₀ s s' : Storage} (h : SameTxIndexes s₀ s)
    (hs : s'.withoutAliases = s.withoutAliases) : SameTxIndexes s₀ s' :=
  ⟨(congrArg Storage.mTransactions hs).trans h.1, (congrArg Storage.mOutputs hs).trans h.2⟩

theorem SameTxIndexes.of_withoutSpends {s₀ s s' : Storage} (h : SameTxIndexes s₀ s)
    (hs : s'.withoutSpends = s.withoutSpends) : SameTxIndexes s₀ s' :=
  ⟨(congrArg Storage.mTransactions hs).trans h.1, (congrArg Storage.mOutputs hs).trans h.2⟩

/-- Taking back the inputs and the alias of a refused transaction. -/
theorem undoRefused_sameTxIndexes (env : Env) (tx : Transaction) (strict : Bool) (s₀ : Storage) :
    Keeps (SameTxIndexes s₀) (do
      let _ ← purgeTransactionKeyimagesFromBlockchain env tx strict
      let _ ← unprocessBlockchainTxExtra env tx
      pure (none : Option TransactionEntry)) := by
  refine Keeps.bind (fun s hs => ?_) fun _ => Keeps.bind (fun s hs => ?_) fun _ => Keeps.pure _
  · exact hs.of_withoutSpends
      (purgeTransactionInputs_withoutSpends env strict s.withoutSpends tx.vin s rfl)
  · exact hs.of_withoutAliases (unprocessBlockchainTxExtra_withoutAliases env tx s)

/-- A computation that can only return `none`. -/
theorem undoRefused_none {env : Env} {tx : Transaction} {strict : Bool} {s s' : Storage}
    {r : Option TransactionEntry}
    (h : (do
      let _ ← purgeTransactionKeyimagesFromBlockchain env tx strict
      let _ ← unprocessBlockchainTxExtra env tx
      pure (none : Option TransactionEntry) : StorageM _) s = .ok r s') : r = none := by
  obtain ⟨_, _, _, h⟩ := bind_eq_ok.1 h
  obtain ⟨_, _, _, h⟩ := bind_eq_ok.1 h
  cases h
  rfl

/-- The position was inserted right before, so the loop over the outputs
finds it. -/
theorem pushTransactionToGlobalOutsIndex_insert (tx : Transaction) (txId : Hash)
    (idx : TransactionIndex) (s : Storage) :
    pushTransactionToGlobalOutsIndex tx txId
        { s with mTransactions := s.mTransactions.insert txId idx } =
      (true, (pushOutputs idx 0 tx.vout s.mOutputs).2,
        { s with
          mTransactions := s.mTransactions.insert txId idx
          mOutputs := (pushOutputs idx 0 tx.vout s.mOutputs).1 }) := by
  simp [pushTransactionToGlobalOutsIndex]

/-- What can come of `add_transaction_from_block`: the transaction is recorded,
or the transaction and output indexes are untouched. -/
theorem addTransactionFromBlock_cases (env : Env) (tx : Transaction) (txId : Hash) (h : Nat)
    (i : UInt16) (s : Storage) :
    (∃ txe s' sa, addTransactionFromBlock env tx txId h i s = .ok (some txe) s' ∧
      TxRecorded env tx txId ⟨h, i⟩ s sa s' txe) ∨
    (∃ s', addTransactionFromBlock env tx txId h i s = .ok none s' ∧ SameTxIndexes s s') ∨
    ∃ e s', addTransactionFromBlock env tx txId h i s = .error e s' ∧ SameTxIndexes s s' := by
  -- both refusals behind the key images end with the same undo
  have undone (strict : Bool) (s₁ : Storage) (hs₁ : SameTxIndexes s s₁)
      (r : EStateM.Result Exn Storage (Option TransactionEntry))
      (hr : (do
        let _ ← purgeTransactionKeyimagesFromBlockchain env tx strict
        let _ ← unprocessBlockchainTxExtra env tx
        pure (none : Option TransactionEntry) : StorageM _) s₁ = r) :
      (∃ s', r = .ok none s' ∧ SameTxIndexes s s') ∨
        ∃ e s', r = .error e s' ∧ SameTxIndexes s s' := by
    have hk := undoRefused_sameTxIndexes env tx strict s s₁ hs₁
    rw [hr] at hk
    cases r with
    | ok o s' => rw [undoRefused_none hr]; exact .inl ⟨s', rfl, hk⟩
    | error e s' => exact .inr ⟨e, s', rfl, hk⟩
  have refl : SameTxIndexes s s := ⟨rfl, rfl⟩
  unfold addTransactionFromBlock
  cases hp : processBlockchainTxExtra env tx s with
  | error e sa =>
    rw [bind_of_error hp]
    have := processBlockchainTxExtra_withoutAliases env tx s
    rw [hp] at this
    exact .inr (.inr ⟨e, sa, rfl, refl.of_withoutAliases this⟩)
  | ok r sa =>
    rw [bind_of_ok hp]
    have ha : SameTxIndexes s sa := refl.of_withoutAliases (processBlockchainTxExtra_frame hp)
    cases r with
    | false => exact .inr (.inl ⟨sa, rfl, ha⟩)
    | true =>
      rw [if_pos rfl]
      have hk := addTransactionInputs_withoutSpends env sa.withoutSpends tx.vin sa rfl
      cases hi : addTransactionInputs env tx.vin sa with
      | error e sb =>
        rw [bind_of_error hi]
        rw [hi] at hk
        exact .inr (.inr ⟨e, sb, rfl, ha.of_withoutSpends hk⟩)
      | ok r sb =>
        rw [bind_of_ok hi]
        rw [hi] at hk
        have hb : SameTxIndexes s sb := ha.of_withoutSpends hk
        cases r with
        | false => exact .inr (undone false sb hb _ rfl)
        | true =>
          rw [if_pos rfl, bind_of_ok (get_apply sb)]
          have added := addTransactionInputs_true hi
          split
          · exact .inr (undone true sb hb _ rfl)
          · next hnew =>
            refine .inl ⟨_, _, sa, ?_, hp, added.state ▸ hi, ?_, rfl, rfl⟩
            · simp only [pushTransactionToGlobalOutsIndex_insert]
              rw [← hb.2, added.state]
              rfl
            · rw [← hb.1]
              simpa using hnew

end DarknetSpace
