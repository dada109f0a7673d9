import Mathlib.Data.List.Induction
import DarknetSpace.Chain.Record

/-!
# The per-amount output index

Each amount has a stack of output positions, shared by all transactions.
Recording a transaction pushes one entry per output, first to last; taking it
out pops them, last to first, and removes an amount with its last entry. The
two are inverse on an index without empty stacks, which is the only kind the
code ever builds.

`pushOutputs` counts the outputs in order and `popOutputs` backwards, and the second is
given the same transaction and index as the first. Main result:
`popOutputs_pushOutputs`. While blocks are only added, stacks only grow at their end
(`OutputsGrow`), so a position that was handed out stays what it is.
-/

namespace DarknetSpace

open StateExn

/-- No amount is listed without outputs. -/
def NoEmptyOuts (outputs : Map UInt64 AmountOuts) : Prop :=
  ∀ amount : UInt64, outputs[amount]? ≠ some []

theorem getElem?_of_getD_ne_nil {outputs : Map UInt64 AmountOuts} {amount : UInt64}
    (h : outputs.getD amount [] ≠ []) : outputs[amount]? = some (outputs.getD amount []) := by
  rw [Std.ExtTreeMap.getD_eq_getD_getElem?] at h ⊢
  cases ho : outputs[amount]? with
  | none => rw [ho] at h; exact absurd rfl h
  | some l => rfl

theorem NoEmptyOuts.getElem?_of_getD_nil {outputs : Map UInt64 AmountOuts} {amount : UInt64}
    (hne : NoEmptyOuts outputs) (h : outputs.getD amount [] = []) : outputs[amount]? = none := by
  rw [Std.ExtTreeMap.getD_eq_getD_getElem?] at h
  cases ho : outputs[amount]? with
  | none => rfl
  | some l =>
    rw [ho] at h
    have hl : l = [] := h
    exact absurd (hl ▸ ho) (hne amount)

/-! ## One output -/

theorem NoEmptyOuts.pushOutput {outputs : Map UInt64 AmountOuts} (h : NoEmptyOuts outputs)
    (amount : UInt64) (entry : TransactionIndex × UInt16) :
    NoEmptyOuts (pushOutput outputs amount entry) := by
  intro a
  unfold DarknetSpace.pushOutput
  rw [Std.ExtTreeMap.getElem?_insert]
  split
  · simp
  · exact h a

theorem NoEmptyOuts.popOutput {outputs : Map UInt64 AmountOuts} (h : NoEmptyOuts outputs)
    (amount : UInt64) (outs : AmountOuts) : NoEmptyOuts (popOutput outputs amount outs) := by
  intro a
  unfold DarknetSpace.popOutput
  split
  · rw [Std.ExtTreeMap.getElem?_erase]
    split
    · simp
    · exact h a
  · next hne =>
    rw [Std.ExtTreeMap.getElem?_insert]
    split
    · simpa using hne
    · exact h a

/-- Popping the entry that was just pushed. -/
theorem popOutput_pushOutput {outputs : Map UInt64 AmountOuts} (h : NoEmptyOuts outputs)
    (amount : UInt64) (entry : TransactionIndex × UInt16) :
    popOutput (pushOutput outputs amount entry) amount (outputs.getD amount [] ++ [entry]) =
      outputs := by
  unfold popOutput pushOutput
  rw [List.dropLast_concat]
  split
  · next hnil =>
    exact FinMap.erase_insert_of_not_contains _ (h.getElem?_of_getD_nil hnil)
  · next hne =>
    rw [FinMap.insert_insert]
    exact FinMap.insert_eq_self (getElem?_of_getD_ne_nil hne)

theorem getD_pushOutput (outputs : Map UInt64 AmountOuts) (amount a : UInt64)
    (entry : TransactionIndex × UInt16) :
    (pushOutput outputs amount entry).getD a [] =
      outputs.getD a [] ++ if amount = a then [entry] else [] := by
  unfold pushOutput
  rw [Std.ExtTreeMap.getD_insert]
  by_cases ha : amount = a
  · subst ha
    simp
  · have hc : compare amount a ≠ .eq := fun hc => ha (Std.LawfulEqCmp.eq_of_compare hc)
    simp [ha, hc]

/-! ## The outputs of a transaction -/

theorem NoEmptyOuts.pushOutputs {outputs : Map UInt64 AmountOuts} (h : NoEmptyOuts outputs)
    (idx : TransactionIndex) (i : Nat) (vout : List TxOut) :
    NoEmptyOuts (pushOutputs idx i vout outputs).1 := by
  induction vout generalizing i outputs with
  | nil => exact h
  | cons o rest ih => exact ih (h.pushOutput o.amount (idx, UInt16.ofNat i)) (i + 1)

/-- The last output is pushed last. -/
theorem pushOutputs_concat (idx : TransactionIndex) (i : Nat) (vout : List TxOut) (o : TxOut)
    (outputs : Map UInt64 AmountOuts) :
    (pushOutputs idx i (vout ++ [o]) outputs).1 =
      pushOutput (pushOutputs idx i vout outputs).1 o.amount
        (idx, UInt16.ofNat (i + vout.length)) := by
  induction vout generalizing i outputs with
  | nil => rfl
  | cons v rest ih =>
    have step := ih (i + 1) (pushOutput outputs v.amount (idx, UInt16.ofNat i))
    rw [Nat.add_right_comm, Nat.add_assoc] at step
    exact step

/-- Taking the outputs out again. -/
theorem popOutputs_pushOutputs {env : Env} {txId : Hash} {idx : TransactionIndex}
    {txe : TransactionEntry} {vout : List TxOut} {outputs : Map UInt64 AmountOuts} {s : Storage}
    (h : NoEmptyOuts outputs) (hlen : vout.length ≤ 65536)
    (hread : s.transactionByIndex idx = .ok txe) (hid : getTransactionHash env txe.tx = txId)
    (hs : s.mOutputs = (pushOutputs idx 0 vout outputs).1) :
    popOutputs env txId vout.zipIdx.reverse s = .ok true { s with mOutputs := outputs } := by
  induction vout using List.reverseRec generalizing s with
  | nil =>
    have : s.mOutputs = outputs := hs
    rw [← this]
    rfl
  | append_singleton vout o ih =>
    rw [List.length_append, List.length_singleton] at hlen
    rw [pushOutputs_concat, Nat.zero_add] at hs
    generalize hbefore : (pushOutputs idx 0 vout outputs).1 = before at hs ih
    have hne : NoEmptyOuts before := by
      rw [← hbefore]
      exact h.pushOutputs idx 0 vout
    have htop : s.mOutputs[o.amount]? =
        some (before.getD o.amount [] ++ [(idx, UInt16.ofNat vout.length)]) := by
      rw [hs, pushOutput, Std.ExtTreeMap.getElem?_insert_self]
    have hnum : (UInt16.ofNat vout.length).toNat = vout.length :=
      Nat.mod_eq_of_lt (by omega)
    rw [List.zipIdx_append, List.reverse_append]
    simp only [List.zipIdx_singleton, List.reverse_singleton, List.singleton_append, popOutputs,
      htop, List.getLast?_append, List.getLast?_singleton, Option.some_or, hread, hid, hnum,
      ne_eq, not_true_eq_false, if_false, Nat.zero_add]
    rw [hs, popOutput_pushOutput hne]
    exact ih (s := { s with mOutputs := before }) (by omega) hread rfl

/-! ## Growth -/

/-- `outputs'` has everything `outputs` has, in the same places, and what it has
more belongs to block `h`. -/
def OutputsGrow (h : Nat) (outputs outputs' : Map UInt64 AmountOuts) : Prop :=
  ∀ amount, ∃ new : AmountOuts, outputs'.getD amount [] = outputs.getD amount [] ++ new ∧
    ∀ p ∈ new, p.1.block = h

theorem OutputsGrow.refl (h : Nat) (outputs : Map UInt64 AmountOuts) :
    OutputsGrow h outputs outputs := fun _ => ⟨[], by simp⟩

theorem OutputsGrow.trans {h : Nat} {o₁ o₂ o₃ : Map UInt64 AmountOuts} (h₁ : OutputsGrow h o₁ o₂)
    (h₂ : OutputsGrow h o₂ o₃) : OutputsGrow h o₁ o₃ := by
  intro amount
  obtain ⟨new₁, he₁, hb₁⟩ := h₁ amount
  obtain ⟨new₂, he₂, hb₂⟩ := h₂ amount
  refine ⟨new₁ ++ new₂, by rw [he₂, he₁, List.append_assoc], ?_⟩
  intro p hp
  rcases List.mem_append.1 hp with hp | hp
  · exact hb₁ p hp
  · exact hb₂ p hp

theorem outputsGrow_pushOutputs (idx : TransactionIndex) (i : Nat) (vout : List TxOut)
    (outputs : Map UInt64 AmountOuts) :
    OutputsGrow idx.block outputs (pushOutputs idx i vout outputs).1 := by
  induction vout generalizing i outputs with
  | nil => exact .refl _ _
  | cons o rest ih =>
    refine OutputsGrow.trans (fun a => ?_)
      (ih (i + 1) (pushOutput outputs o.amount (idx, UInt16.ofNat i)))
    refine ⟨_, getD_pushOutput outputs o.amount a _, ?_⟩
    intro p hp
    split at hp
    · rw [List.mem_singleton.1 hp]
    · cases hp

/-- What was there stays in its place. -/
theorem OutputsGrow.getElem? {h : Nat} {o o' : Map UInt64 AmountOuts} (hg : OutputsGrow h o o')
    {amount : UInt64} {g : Nat} {p : TransactionIndex × UInt16}
    (hp : (o.getD amount [])[g]? = some p) : (o'.getD amount [])[g]? = some p := by
  obtain ⟨new, he, -⟩ := hg amount
  obtain ⟨hlt, -⟩ := List.getElem?_eq_some_iff.1 hp
  rw [he, List.getElem?_append_left hlt, hp]

/-- What is not of block `h` was there. -/
theorem OutputsGrow.getElem?_of_block_ne {h : Nat} {o o' : Map UInt64 AmountOuts}
    (hg : OutputsGrow h o o') {amount : UInt64} {g : Nat} {p : TransactionIndex × UInt16}
    (hp : (o'.getD amount [])[g]? = some p) (hb : p.1.block ≠ h) :
    (o.getD amount [])[g]? = some p := by
  obtain ⟨new, he, hnew⟩ := hg amount
  rw [he] at hp
  by_cases hlt : g < (o.getD amount []).length
  · rwa [List.getElem?_append_left hlt] at hp
  · rw [List.getElem?_append_right (by omega)] at hp
    exact absurd (hnew p (List.mem_of_getElem? hp)) hb

end DarknetSpace
