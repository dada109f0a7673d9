import DarknetSpace.Chain.Inputs
import DarknetSpace.Chain.Flags
import DarknetSpace.Chain.Outputs

/-!
# What a later storage still resolves

A transaction is checked when its block is pushed and again, against a longer
chain, when the block is popped and the transaction goes back to the pool. The
outputs it refers to are still where they were, so the second check reads what
the first one read: it may come to another verdict (time has passed), but it
does not throw.

`Later` says how the two storages lie to each other: the blocks of the first are the
beginning of those of the second up to flags, its stacks of outputs have only grown, and
the transactions it has are still there. What is read through an index is found again at
the same place (`transactionByIndex_of_isPrefix`), a ring again
(`checkInputs_resolves`), and the output of a direct spend
(`addTransactionInputs_resolves`).
-/

namespace DarknetSpace

open StateExn

/-- `d` has what `s` has: its blocks go on from those of `s` up to flags, its
output index grew by outputs of block `h`, and no transaction is missing. -/
structure Later (h : Nat) (s d : Storage) : Prop where
  blocks : forgetFlags s.mBlocks <+: forgetFlags d.mBlocks
  outputs : OutputsGrow h s.mOutputs d.mOutputs
  transactions : ∀ id, s.mTransactions.contains id → d.mTransactions.contains id

theorem transactionByIndex_eq_ok {s : Storage} {idx : TransactionIndex} {txe : TransactionEntry} :
    s.transactionByIndex idx = .ok txe ↔
      ∃ e, s.mBlocks[idx.block]? = some e ∧ e.transactions[idx.transaction.toNat]? = some txe := by
  unfold Storage.transactionByIndex Storage.blockAt
  cases s.mBlocks[idx.block]? with
  | none =>
    constructor
    · intro h; cases h
    · rintro ⟨e, h, -⟩; cases h
  | some e =>
    simp only [bind, Except.bind]
    cases ht : e.transactions[idx.transaction.toNat]? with
    | none =>
      constructor
      · intro h; cases h
      · rintro ⟨e', he', h'⟩
        cases he'
        rw [ht] at h'
        cases h'
    | some t =>
      constructor
      · intro h
        cases h
        exact ⟨e, rfl, ht⟩
      · rintro ⟨e', he', h'⟩
        cases he'
        rw [ht] at h'
        cases h'
        rfl

/-- A read inside the chain depends on the chain up to flags. -/
theorem transactionByIndex_of_isPrefix {s d : Storage} {idx : TransactionIndex}
    {txe : TransactionEntry} (hp : forgetFlags s.mBlocks <+: forgetFlags d.mBlocks)
    (hr : s.transactionByIndex idx = .ok txe) :
    ∃ txe', d.transactionByIndex idx = .ok txe' ∧ txe'.forgetFlags = txe.forgetFlags := by
  obtain ⟨e, he, ht⟩ := transactionByIndex_eq_ok.1 hr
  have hfe : (forgetFlags s.mBlocks)[idx.block]? = some e.forgetFlags := by
    rw [forgetFlags, List.getElem?_map, he]
    rfl
  have hfd : (forgetFlags d.mBlocks)[idx.block]? = some e.forgetFlags := by
    obtain ⟨rest, hrest⟩ := hp
    obtain ⟨hlt, -⟩ := List.getElem?_eq_some_iff.1 hfe
    rw [← hrest, List.getElem?_append_left hlt, hfe]
  rw [forgetFlags, List.getElem?_map] at hfd
  obtain ⟨e', he', hee'⟩ := Option.map_eq_some_iff.1 hfd
  have htt : (e'.transactions.map TransactionEntry.forgetFlags)[idx.transaction.toNat]? =
      some txe.forgetFlags := by
    have := congrArg (fun b : BlockEntry => b.transactions[idx.transaction.toNat]?) hee'
    simp only [BlockEntry.forgetFlags, List.getElem?_map, ht] at this
    rw [List.getElem?_map]
    exact this
  rw [List.getElem?_map] at htt
  obtain ⟨txe', ht', hf⟩ := Option.map_eq_some_iff.1 htt
  exact ⟨txe', transactionByIndex_eq_ok.2 ⟨e', he', ht'⟩, hf⟩

theorem TransactionEntry.tx_of_forgetFlags {t t' : TransactionEntry}
    (h : t.forgetFlags = t'.forgetFlags) : t.tx = t'.tx := by
  have := congrArg TransactionEntry.tx h
  exact this

theorem TransactionEntry.flags_length_of_forgetFlags {t t' : TransactionEntry}
    (h : t.forgetFlags = t'.forgetFlags) : t.mSpentFlags.length = t'.mSpentFlags.length := by
  have := congrArg (fun e : TransactionEntry => e.mSpentFlags.length) h
  simpa [TransactionEntry.forgetFlags] using this

/-! ## Rings -/

/-- The outputs at the given places are in the chain. -/
def Resolves (s : Storage) (outs : AmountOuts) (offsets : List UInt64) : Prop :=
  ∀ i ∈ offsets, ∃ p txe, outs[i.toNat]? = some p ∧ s.transactionByIndex p.1 = .ok txe

theorem scanOutputs_resolves {env : Env} {now size : Nat} {s : Storage} {outs : AmountOuts}
    {offsets : List UInt64} {ks : List (PublicKey × Nat)}
    (h : s.scanOutputs env now outs size offsets = .ok (some ks)) : Resolves s outs offsets := by
  induction offsets generalizing ks with
  | nil =>
    intro i hi
    cases hi
  | cons i rest ih =>
    unfold Storage.scanOutputs at h
    split at h
    · cases h
    · cases h
    · next k hk =>
      have hhead : ∃ p txe, outs[i.toNat]? = some p ∧ s.transactionByIndex p.1 = .ok txe := by
        unfold Storage.scanOutput at hk
        split at hk
        · cases hk
        · next idx out hp =>
          split at hk
          · cases hk
          · next txe ht => exact ⟨(idx, out), txe, hp, ht⟩
      have htail : Resolves s outs rest := by
        split at h
        · next ks' hks => exact ih hks
        · next hne => exact absurd h (hne ks)
      intro j hj
      rcases List.mem_cons.1 hj with rfl | hj
      · exact hhead
      · exact htail j hj

theorem scanOutputs_of_resolves {env : Env} {now size : Nat} {s : Storage} {outs : AmountOuts}
    {offsets : List UInt64} (h : Resolves s outs offsets) :
    ∃ r, s.scanOutputs env now outs size offsets = .ok r := by
  induction offsets with
  | nil => exact ⟨_, rfl⟩
  | cons i rest ih =>
    obtain ⟨r, hr⟩ := ih fun j hj => h j (List.mem_cons_of_mem _ hj)
    obtain ⟨p, txe, hp, ht⟩ := h i List.mem_cons_self
    have hhead : ∃ k, s.scanOutput env now outs size i = .ok k := by
      unfold Storage.scanOutput
      simp only [hp, ht]
      split
      · exact ⟨_, rfl⟩
      · split
        · exact ⟨_, rfl⟩
        · split
          · split <;> exact ⟨_, rfl⟩
          · exact ⟨_, rfl⟩
    obtain ⟨k, hk⟩ := hhead
    unfold Storage.scanOutputs
    rw [hk, hr]
    cases k with
    | none => exact ⟨_, rfl⟩
    | some k => cases r <;> exact ⟨_, rfl⟩

/-- The ring of an input is in the chain. -/
def RingResolves (s : Storage) : Txin → Prop
  | .toKey amount offs _ =>
    Resolves s (s.mOutputs.getD amount []) (relativeOutputOffsetsToAbsolute offs)
  | _ => True

theorem Later.ringResolves {h : Nat} {s d : Storage} (hl : Later h s d) {i : Txin}
    (hr : RingResolves s i) : RingResolves d i := by
  cases i with
  | toKey amount offs ki =>
    intro j hj
    obtain ⟨p, txe, hp, ht⟩ := hr j hj
    obtain ⟨txe', ht', -⟩ := transactionByIndex_of_isPrefix hl.blocks ht
    exact ⟨p, txe', hl.outputs.getElem? hp, ht'⟩
  | gen => trivial
  | toScript => trivial
  | toScripthash => trivial

theorem getD_of_getElem? {outputs : Map UInt64 AmountOuts} {amount : UInt64} {outs : AmountOuts}
    (h : outputs[amount]? = some outs) : outputs.getD amount [] = outs := by
  rw [Std.ExtTreeMap.getD_eq_getD_getElem?, h]
  rfl

/-- Accepted inputs are `txin_to_key`, and their rings are in the chain. -/
theorem checkInputs_resolves {env : Env} {now : Nat} {s : Storage} {hash : Hash} {vin : List Txin}
    {sigs : List (List Signature)} {m used : Nat}
    (h : s.checkInputs env now hash vin sigs m = .ok (some used)) :
    ∀ i ∈ vin, (∃ a offs ki, i = .toKey a offs ki) ∧ RingResolves s i := by
  induction vin generalizing sigs m with
  | nil =>
    intro i hi
    cases hi
  | cons i rest ih =>
    cases i with
    | toKey amount offs ki =>
      simp only [Storage.checkInputs] at h
      split at h
      · cases h
      · split at h
        · cases h
        · split at h
          · cases h
          · split at h
            · next m' hm =>
              have hring : RingResolves s (.toKey amount offs ki) := by
                unfold Storage.checkTxInput at hm
                split at hm
                · cases hm
                · cases hm
                · next ring hscan =>
                  unfold Storage.scanOutputkeysForIndexes at hscan
                  split at hscan
                  · cases hscan
                  · next outs houts =>
                    split at hscan
                    · cases hscan
                    · show Resolves s (s.mOutputs.getD amount []) _
                      rw [getD_of_getElem? houts]
                      exact scanOutputs_resolves hscan
              intro j hj
              rcases List.mem_cons.1 hj with rfl | hj
              · exact ⟨⟨amount, offs, ki, rfl⟩, hring⟩
              · exact ih h j hj
            · next hne => exact absurd h (hne used)
    | gen => cases h
    | toScript => cases h
    | toScripthash => cases h

/-- Where every ring is in the chain, checking the inputs does not throw. -/
theorem checkInputs_of_resolves {env : Env} {now : Nat} {s : Storage} {hash : Hash}
    {vin : List Txin} {sigs : List (List Signature)} {m : Nat}
    (h : ∀ i ∈ vin, RingResolves s i) : ∃ r, s.checkInputs env now hash vin sigs m = .ok r := by
  induction vin generalizing sigs m with
  | nil =>
    unfold Storage.checkInputs
    split <;> exact ⟨_, rfl⟩
  | cons i rest ih =>
    have hrest : ∀ j ∈ rest, RingResolves s j := fun j hj => h j (List.mem_cons_of_mem _ hj)
    cases i with
    | toKey amount offs ki =>
      have hring : RingResolves s (.toKey amount offs ki) := h _ List.mem_cons_self
      -- the signatures decide what is returned, never whether something is
      have hinput : ∀ sig, ∃ r, s.checkTxInput env now amount offs ki hash sig m = .ok r := by
        intro sig
        have hscan : ∃ r, s.scanOutputkeysForIndexes env now amount offs = .ok r := by
          unfold Storage.scanOutputkeysForIndexes
          split
          · exact ⟨_, rfl⟩
          · next outs houts =>
            split
            · exact ⟨_, rfl⟩
            · have hres : Resolves s (s.mOutputs.getD amount []) _ := hring
              rw [getD_of_getElem? houts] at hres
              exact scanOutputs_of_resolves hres
        obtain ⟨r, hr⟩ := hscan
        unfold Storage.checkTxInput
        rw [hr]
        cases r with
        | none => exact ⟨_, rfl⟩
        | some ring =>
          simp only
          split
          · exact ⟨_, rfl⟩
          · split
            · exact ⟨_, rfl⟩
            · split <;> exact ⟨_, rfl⟩
      simp only [Storage.checkInputs]
      split
      · exact ⟨_, rfl⟩
      · split
        · exact ⟨_, rfl⟩
        · split
          · exact ⟨_, rfl⟩
          · obtain ⟨r, hr⟩ := hinput (sigs.headD [])
            rw [hr]
            cases r with
            | none => exact ⟨_, rfl⟩
            | some m' => exact ih hrest
    | gen => exact ⟨_, rfl⟩
    | toScript => exact ⟨_, rfl⟩
    | toScripthash => exact ⟨_, rfl⟩

/-- A transaction that was accepted can be handed back to the pool later. -/
theorem Later.checkTxInputsWithId {env : Env} {now : Nat} {h : Nat} {s d : Storage}
    {tx : Transaction} {used : Nat} (hl : Later h s d)
    (hin : s.checkTxInputs env now tx = .ok (some used)) (now' : Nat) :
    ∃ r, d.checkTxInputsWithId env now' tx = .ok r := by
  have hres : ∀ i ∈ tx.vin, RingResolves d i := fun i hi =>
    hl.ringResolves (checkInputs_resolves hin i hi).2
  obtain ⟨r, hr⟩ : ∃ r, d.checkTxInputs env now' tx = .ok r := checkInputs_of_resolves hres
  unfold Storage.checkTxInputsWithId
  rw [hr]
  cases r with
  | none => exact ⟨_, rfl⟩
  | some h =>
    simp only
    split <;> exact ⟨_, rfl⟩

/-! ## Direct spends -/

/-- The output a direct spend refers to is in the chain, with a flag to set. -/
def DirectResolves (env : Env) (s : Storage) (i : Txin) : Prop :=
  ∀ amount g ki, i = .toKey amount [g] ki →
    ∃ p txe, directTarget s.mOutputs i = some p ∧ s.transactionByIndex p.1 = .ok txe ∧
      s.mTransactions.contains (getTransactionHash env txe.tx) ∧
      p.2.toNat < txe.mSpentFlags.length

theorem Later.directResolves {env : Env} {h : Nat} {s d : Storage} (hl : Later h s d) {i : Txin}
    (hr : DirectResolves env s i) : DirectResolves env d i := by
  rintro amount g ki rfl
  obtain ⟨p, txe, hp, ht, hc, hlt⟩ := hr amount g ki rfl
  obtain ⟨txe', ht', hf⟩ := transactionByIndex_of_isPrefix hl.blocks ht
  refine ⟨p, txe', hl.outputs.getElem? hp, ht', ?_, ?_⟩
  · rw [getTransactionHash, TransactionEntry.tx_of_forgetFlags hf]
    exact hl.transactions _ hc
  · rw [TransactionEntry.flags_length_of_forgetFlags hf]
    exact hlt

/-- The target of a direct spend lies below the blocks the index grew by. -/
theorem directTarget_of_grown {env : Env} {s d : Storage} {i : Txin}
    (hl : OutputsGrow s.mBlocks.length s.mOutputs d.mOutputs)
    (hb : forgetFlags d.mBlocks = forgetFlags s.mBlocks)
    (hr : DirectResolves env d i) : directTarget d.mOutputs i = directTarget s.mOutputs i := by
  cases i with
  | toKey amount offs ki =>
    cases offs with
    | nil => rfl
    | cons g rest =>
      cases rest with
      | nil =>
        obtain ⟨p, txe, hp, ht, -⟩ := hr amount g ki rfl
        obtain ⟨e, he, -⟩ := transactionByIndex_eq_ok.1 ht
        obtain ⟨hlt, -⟩ := List.getElem?_eq_some_iff.1 he
        rw [length_eq_of_forgetFlags hb] at hlt
        have hs : directTarget s.mOutputs (.toKey amount [g] ki) = some p :=
          hl.getElem?_of_block_ne hp (by omega)
        rw [hp, hs]
      | cons g' rest => rfl
  | gen => rfl
  | toScript => rfl
  | toScripthash => rfl

theorem updateFlagsOfDirectSpend_of_resolves {env : Env} {amount : UInt64} {offs : List UInt64}
    {ki : KeyImage} {d : Storage} (spent : Bool)
    (hr : DirectResolves env d (.toKey amount offs ki)) :
    updateFlagsOfDirectSpend env amount offs spent d =
      .ok true { d with mBlocks := markInput d.mOutputs spent d.mBlocks (.toKey amount offs ki) } := by
  cases offs with
  | nil => rfl
  | cons g rest =>
    cases rest with
    | nil =>
      obtain ⟨⟨idx, out⟩, txe, hp, ht, hc, hlt⟩ := hr amount g ki rfl
      rw [markInput_eq, hp]
      show updateSpentTxFlagsForInput env amount g spent d = _
      have hp' : (d.mOutputs.getD amount [])[g.toNat]? = some (idx, out) := hp
      unfold updateSpentTxFlagsForInput
      simp only [hp', ht, hc, hlt, if_true, Option.elim_some]
    | cons g' rest => rfl

theorem directResolves_of_updateFlags {env : Env} {amount : UInt64} {offs : List UInt64}
    {spent : Bool} {s s' : Storage} (ki : KeyImage)
    (h : updateFlagsOfDirectSpend env amount offs spent s = .ok true s') :
    DirectResolves env s (.toKey amount offs ki) := by
  rintro a g k heq
  cases heq
  unfold updateFlagsOfDirectSpend updateSpentTxFlagsForInput at h
  simp only at h
  split at h
  · cases h
  · next idx out hp =>
    split at h
    · cases h
    · next txe ht =>
      split at h
      · next hc =>
        split at h
        · next hlt => exact ⟨(idx, out), txe, hp, ht, hc, hlt⟩
        · cases h
      · cases h

/-- Key images and flags do not matter to what resolves. -/
theorem DirectResolves.of_withoutSpends {env : Env} {s s' : Storage} {i : Txin}
    (h : DirectResolves env s' i) (hs : s'.withoutSpends = s.withoutSpends) :
    DirectResolves env s i := by
  have hb : forgetFlags s'.mBlocks = forgetFlags s.mBlocks := by
    have := congrArg Storage.mBlocks hs; exact this
  have ho : s'.mOutputs = s.mOutputs := by have := congrArg Storage.mOutputs hs; exact this
  have ht : s'.mTransactions = s.mTransactions := by
    have := congrArg Storage.mTransactions hs; exact this
  have hl : Later 0 s' s :=
    ⟨hb ▸ List.prefix_rfl, by rw [ho]; exact .refl _ _, by rw [ht]; exact fun _ h => h⟩
  exact hl.directResolves h

/-- Accepted inputs resolve their direct spends. -/
theorem addTransactionInputs_resolves {env : Env} {vin : List Txin} {s s' : Storage}
    (h : addTransactionInputs env vin s = .ok true s') : ∀ i ∈ vin, DirectResolves env s i := by
  induction vin generalizing s with
  | nil =>
    intro i hi
    cases hi
  | cons i rest ih =>
    obtain ⟨r, s₁, h₁, h₂⟩ := bind_eq_ok.1 h
    have hs₁ : s₁.withoutSpends = s.withoutSpends := by
      have := addTransactionInput_withoutSpends env i s
      rwa [h₁] at this
    cases r with
    | false => cases h₂
    | true =>
      intro j hj
      rcases List.mem_cons.1 hj with rfl | hj
      · cases j with
        | toKey amount offs ki =>
          simp only [addTransactionInput] at h₁
          split at h₁
          · cases h₁
          · have := directResolves_of_updateFlags ki h₁
            exact this.of_withoutSpends rfl
        | gen => rintro _ _ _ heq; cases heq
        | toScript => rintro _ _ _ heq; cases heq
        | toScripthash => rintro _ _ _ heq; cases heq
      · exact (ih h₂ j hj).of_withoutSpends hs₁

end DarknetSpace
