import DarknetSpace.Chain.Record

/-!
# Spent flags

A block entry keeps a flag for every output of its transactions. Everything
else in a chain is `forgetFlags` of it, so two chains are equal when they are
equal up to flags and have the same flag everywhere (`ext_flagAt`). Setting a
flag is then a pointwise update, and setting a list of flags `true` and the
same list `false` again ends with them all `false`.

`FlagsSet` is that pointwise update for a list of places. Pushing a block sets the flags
of the outputs its transactions spend directly, and popping it clears them. So the two
are inverse just when none of these flags was set before, and no place is in the list
twice (`FlagsSet.roundTrip_iff`); and a flag that was set by somebody else is what a pop
forgets.
-/

namespace DarknetSpace

/-- The flag of output `o` of transaction `t` of block `b`. -/
def flagAt (blocks : List BlockEntry) (b t o : Nat) : Option Bool :=
  (blocks[b]?.bind (·.transactions[t]?)).bind (·.mSpentFlags[o]?)

theorem TransactionEntry.ext_flags {t t' : TransactionEntry}
    (h : t.forgetFlags = t'.forgetFlags) (hf : ∀ o : Nat, t.mSpentFlags[o]? = t'.mSpentFlags[o]?) :
    t = t' := by
  have hflags : t.mSpentFlags = t'.mSpentFlags := List.ext_getElem? hf
  simp only [TransactionEntry.forgetFlags, TransactionEntry.mk.injEq] at h
  cases t
  cases t'
  simp_all

theorem BlockEntry.ext_flags {e e' : BlockEntry} (h : e.forgetFlags = e'.forgetFlags)
    (hf : ∀ t o : Nat, (e.transactions[t]?.bind (·.mSpentFlags[o]?)) =
      (e'.transactions[t]?.bind (·.mSpentFlags[o]?))) : e = e' := by
  have hmap : e.transactions.map TransactionEntry.forgetFlags =
      e'.transactions.map TransactionEntry.forgetFlags := congrArg BlockEntry.transactions h
  have htx : e.transactions = e'.transactions := by
    apply List.ext_getElem?
    intro t
    have ht := congrArg (fun l => l[t]?) hmap
    simp only [List.getElem?_map] at ht
    have hft := hf t
    cases he : e.transactions[t]? with
    | none =>
      rw [he] at ht
      cases he' : e'.transactions[t]? with
      | none => rfl
      | some t' => rw [he'] at ht; cases ht
    | some t₁ =>
      rw [he] at ht hft
      cases he' : e'.transactions[t]? with
      | none => rw [he'] at ht; cases ht
      | some t₂ =>
        rw [he'] at ht hft
        exact congrArg some (TransactionEntry.ext_flags (Option.some.inj ht) hft)
  simp only [BlockEntry.forgetFlags, BlockEntry.mk.injEq] at h
  cases e
  cases e'
  simp_all

/-- Chains equal up to flags, with equal flags. -/
theorem ext_flagAt {bs bs' : List BlockEntry} (h : forgetFlags bs = forgetFlags bs')
    (hf : ∀ b t o, flagAt bs b t o = flagAt bs' b t o) : bs = bs' := by
  apply List.ext_getElem?
  intro b
  have hb := congrArg (fun l => l[b]?) h
  simp only [forgetFlags, List.getElem?_map] at hb
  have hfb : ∀ t o, flagAt bs b t o = flagAt bs' b t o := hf b
  unfold flagAt at hfb
  cases he : bs[b]? with
  | none =>
    rw [he] at hb
    cases he' : bs'[b]? with
    | none => rfl
    | some e' => rw [he'] at hb; cases hb
  | some e =>
    rw [he] at hb hfb
    cases he' : bs'[b]? with
    | none => rw [he'] at hb; cases hb
    | some e' =>
      rw [he'] at hb hfb
      exact congrArg some (BlockEntry.ext_flags (Option.some.inj hb) hfb)

theorem flagAt_setSpentFlag (bs : List BlockEntry) (idx : TransactionIndex) (out : Nat)
    (spent : Bool) (b t o : Nat) :
    flagAt (setSpentFlag bs idx out spent) b t o =
      if idx.block = b ∧ idx.transaction.toNat = t ∧ out = o then
        (flagAt bs b t o).map fun _ => spent
      else flagAt bs b t o := by
  unfold flagAt setSpentFlag
  rw [List.getElem?_modify]
  by_cases hb : idx.block = b
  · simp only [hb, if_true, true_and]
    cases bs[b]? with
    | none => simp
    | some e =>
      simp only [Option.map_eq_map, Option.map_some, Option.bind_some, List.getElem?_modify]
      by_cases ht : idx.transaction.toNat = t
      · simp only [ht, if_true, true_and]
        cases e.transactions[t]? with
        | none => simp
        | some txe =>
          simp only [Option.map_some, Option.bind_some, List.getElem?_set]
          by_cases ho : out = o
          · subst ho
            by_cases hlt : out < txe.mSpentFlags.length
            · simp [hlt]
            · simp [hlt]
          · simp [ho]
      · simp [ht]
  · simp [hb]

/-! ## The outputs a list of inputs spends directly -/

/-- The output a ring of one refers to. -/
def directTarget (outputs : Map UInt64 AmountOuts) : Txin → Option (TransactionIndex × UInt16)
  | .toKey amount [g] _ => (outputs.getD amount [])[g.toNat]?
  | _ => none

theorem markInput_eq (outputs : Map UInt64 AmountOuts) (spent : Bool) (blocks : List BlockEntry)
    (i : Txin) :
    markInput outputs spent blocks i =
      (directTarget outputs i).elim blocks fun p => setSpentFlag blocks p.1 p.2.toNat spent := by
  cases i with
  | toKey amount offsets kImage =>
    rcases offsets with _ | ⟨g, _ | ⟨g', rest⟩⟩
    · rfl
    · simp only [markInput, directTarget]
      cases (outputs.getD amount [])[g.toNat]? <;> rfl
    · rfl
  | _ => rfl

/-- An input spends output `o` of transaction `t` of block `b` directly. -/
def Spends (outputs : Map UInt64 AmountOuts) (vin : List Txin) (b t o : Nat) : Prop :=
  ∃ i ∈ vin, ∃ p, directTarget outputs i = some p ∧ p.1.block = b ∧ p.1.transaction.toNat = t ∧
    p.2.toNat = o

/-- The flags after the inputs of one transaction: those they spend directly
have the new value, the others their old one. -/
theorem flagAt_markSpent (outputs : Map UInt64 AmountOuts) (spent : Bool) (vin : List Txin)
    (bs : List BlockEntry) (b t o : Nat) :
    (Spends outputs vin b t o →
      flagAt (markSpent outputs spent vin bs) b t o = (flagAt bs b t o).map fun _ => spent) ∧
    (¬ Spends outputs vin b t o →
      flagAt (markSpent outputs spent vin bs) b t o = flagAt bs b t o) := by
  induction vin generalizing bs with
  | nil =>
    refine ⟨?_, fun _ => rfl⟩
    rintro ⟨i, hi, -⟩
    cases hi
  | cons i rest ih =>
    obtain ⟨ih₁, ih₂⟩ := ih (markInput outputs spent bs i)
    have hcons : Spends outputs (i :: rest) b t o ↔
        (∃ p, directTarget outputs i = some p ∧ p.1.block = b ∧ p.1.transaction.toNat = t ∧
          p.2.toNat = o) ∨ Spends outputs rest b t o := by
      simp [Spends]
    have hhead : flagAt (markInput outputs spent bs i) b t o =
        if ∃ p, directTarget outputs i = some p ∧ p.1.block = b ∧ p.1.transaction.toNat = t ∧
          p.2.toNat = o then (flagAt bs b t o).map fun _ => spent else flagAt bs b t o := by
      rw [markInput_eq]
      cases directTarget outputs i with
      | none => simp
      | some p =>
        simp only [Option.elim_some, Option.some.injEq, exists_eq_left']
        exact flagAt_setSpentFlag bs p.1 p.2.toNat spent b t o
    constructor
    · intro h
      show flagAt (markSpent outputs spent rest (markInput outputs spent bs i)) b t o = _
      by_cases hrest : Spends outputs rest b t o
      · rw [ih₁ hrest, hhead]
        split
        · cases flagAt bs b t o <;> rfl
        · rfl
      · rw [ih₂ hrest, hhead, if_pos ((hcons.1 h).resolve_right hrest)]
    · intro h
      show flagAt (markSpent outputs spent rest (markInput outputs spent bs i)) b t o = _
      rw [ih₂ fun hr => h (hcons.2 (.inr hr)), hhead, if_neg fun hp => h (hcons.2 (.inl hp))]

/-! ## Chains that differ in a set of flags -/

/-- `bs'` is `bs` with the flags in `P` set to `v`. -/
structure FlagsSet (P : Nat → Nat → Nat → Prop) (v : Bool) (bs bs' : List BlockEntry) : Prop where
  blocks : forgetFlags bs' = forgetFlags bs
  inside : ∀ b t o, P b t o → flagAt bs' b t o = (flagAt bs b t o).map fun _ => v
  outside : ∀ b t o, ¬ P b t o → flagAt bs' b t o = flagAt bs b t o

theorem FlagsSet.none {P : Nat → Nat → Nat → Prop} {v : Bool} {bs : List BlockEntry}
    (h : ∀ b t o, ¬ P b t o) : FlagsSet P v bs bs :=
  ⟨rfl, fun b t o hp => absurd hp (h b t o), fun _ _ _ _ => rfl⟩

theorem FlagsSet.markSpent (outputs : Map UInt64 AmountOuts) (v : Bool) (vin : List Txin)
    (bs : List BlockEntry) :
    FlagsSet (Spends outputs vin) v bs (markSpent outputs v vin bs) :=
  ⟨forgetFlags_markSpent .., fun b t o => (flagAt_markSpent outputs v vin bs b t o).1,
    fun b t o => (flagAt_markSpent outputs v vin bs b t o).2⟩

theorem FlagsSet.trans {P Q R : Nat → Nat → Nat → Prop} {v : Bool} {bs₁ bs₂ bs₃ : List BlockEntry}
    (h₁ : FlagsSet P v bs₁ bs₂) (h₂ : FlagsSet Q v bs₂ bs₃)
    (hR : ∀ b t o, R b t o ↔ P b t o ∨ Q b t o) : FlagsSet R v bs₁ bs₃ := by
  refine ⟨h₂.blocks.trans h₁.blocks, fun b t o hr => ?_, fun b t o hr => ?_⟩
  · by_cases hq : Q b t o
    · rw [h₂.inside b t o hq]
      by_cases hp : P b t o
      · rw [h₁.inside b t o hp, Option.map_map]
        rfl
      · rw [h₁.outside b t o hp]
    · rw [h₂.outside b t o hq]
      exact h₁.inside b t o (((hR b t o).1 hr).resolve_right hq)
  · rw [h₂.outside b t o fun hq => hr ((hR b t o).2 (.inr hq)),
      h₁.outside b t o fun hp => hr ((hR b t o).2 (.inl hp))]

theorem flagAt_concat_of_lt {bs : List BlockEntry} {e : BlockEntry} {b : Nat} (h : b < bs.length)
    (t o : Nat) : flagAt (bs ++ [e]) b t o = flagAt bs b t o := by
  unfold flagAt
  rw [List.getElem?_append_left h]

theorem flagAt_of_ge {bs : List BlockEntry} {b : Nat} (h : bs.length ≤ b) (t o : Nat) :
    flagAt bs b t o = Option.none := by
  unfold flagAt
  rw [List.getElem?_eq_none h]
  rfl

/-- The same set of flags below the last block. -/
theorem FlagsSet.dropLast {P : Nat → Nat → Nat → Prop} {v : Bool} {bs bs' : List BlockEntry}
    {e : BlockEntry} (h : FlagsSet P v (bs ++ [e]) bs') : FlagsSet P v bs bs'.dropLast := by
  have hlen : bs'.length = bs.length + 1 := by
    rw [length_eq_of_forgetFlags h.blocks, List.length_append, List.length_singleton]
  have hdrop : ∀ b t o, b < bs.length → flagAt bs'.dropLast b t o = flagAt bs' b t o := by
    intro b t o hb
    unfold flagAt
    rw [List.getElem?_dropLast, if_pos (by omega)]
  have hend : ∀ b t o, bs.length ≤ b → flagAt bs'.dropLast b t o = flagAt bs b t o := by
    intro b t o hb
    rw [flagAt_of_ge hb, flagAt_of_ge (by rw [List.length_dropLast]; omega)]
  refine ⟨?_, fun b t o hp => ?_, fun b t o hp => ?_⟩
  · unfold forgetFlags
    rw [List.map_dropLast]
    have := h.blocks
    unfold forgetFlags at this
    rw [this, List.map_append, List.map_singleton, List.dropLast_concat]
  · by_cases hb : b < bs.length
    · rw [hdrop b t o hb, h.inside b t o hp, flagAt_concat_of_lt hb]
    · rw [hend b t o (by omega), flagAt_of_ge (by omega)]
      rfl
  · by_cases hb : b < bs.length
    · rw [hdrop b t o hb, h.outside b t o hp, flagAt_concat_of_lt hb]
    · exact hend b t o (by omega)

/-- Set and cleared again: the chain is back exactly when none of the flags was
set before. -/
theorem FlagsSet.roundTrip_iff {P : Nat → Nat → Nat → Prop} {bs bs₁ bs₂ : List BlockEntry}
    (h₁ : FlagsSet P true bs bs₁) (h₂ : FlagsSet P false bs₁ bs₂) :
    bs₂ = bs ↔ ∀ b t o, P b t o → flagAt bs b t o ≠ some true := by
  constructor
  · rintro rfl b t o hp hset
    have hf := h₂.inside b t o hp
    rw [h₁.inside b t o hp, hset] at hf
    cases hf
  · intro h
    refine ext_flagAt (h₂.blocks.trans h₁.blocks) fun b t o => ?_
    by_cases hp : P b t o
    · rw [h₂.inside b t o hp, h₁.inside b t o hp, Option.map_map]
      have hns := h b t o hp
      cases hf : flagAt bs b t o with
      | none => rfl
      | some v =>
        cases v with
        | false => rfl
        | true => exact absurd hf hns
    · rw [h₂.outside b t o hp, h₁.outside b t o hp]

end DarknetSpace
