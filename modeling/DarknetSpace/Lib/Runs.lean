import Mathlib.Data.List.Basic

/-!
# Runs of an event machine

A machine takes a step for each event, or refuses it. A run is a list of events,
so that what is proved of every run is proved of every interleaving of the
parties the events belong to, and of every state passed on the way.

`Meets C` says that each event of a run meets a condition on the state it
finds. `run_keeps` is the invariant rule under such a condition.

The rule is used for both kinds of parties there are here: a program whose threads take
turns, and a node whose events come from outside. `run_origin` goes the other way: what
holds at the end and not at the start came about at some event, between two states of
the run.
-/

namespace Runs

variable {σ ε : Type}

/-- Take the events in turn. -/
def run (step : ε → σ → Option σ) : List ε → σ → Option σ
  | [], s => some s
  | e :: es, s => (step e s).bind (run step es)

/-- Every event meets `C` in the state it finds. -/
def Meets (step : ε → σ → Option σ) (C : ε → σ → Prop) : List ε → σ → Prop
  | [], _ => True
  | e :: es, s => C e s ∧ ∀ s' ∈ step e s, Meets step C es s'

variable {step : ε → σ → Option σ} {C : ε → σ → Prop} {I : σ → Prop}

instance decidableMeets [∀ e s, Decidable (C e s)] :
    ∀ (es : List ε) (s : σ), Decidable (Meets step C es s)
  | [], _ => instDecidableTrue
  | e :: es, s =>
    have : ∀ s', Decidable (Meets step C es s') := decidableMeets es
    inferInstanceAs (Decidable (C e s ∧ ∀ s' ∈ step e s, Meets step C es s'))

/-- What every step that meets `C` keeps, every run of such steps keeps. -/
theorem run_keeps (hstep : ∀ e s s', I s → C e s → step e s = some s' → I s') {es : List ε}
    {s s' : σ} (hs : I s) (hmeets : Meets step C es s) (hrun : run step es s = some s') : I s' := by
  induction es generalizing s with
  | nil =>
    cases hrun
    exact hs
  | cons e es ih =>
    obtain ⟨s₁, hs₁, hrest⟩ := Option.bind_eq_some_iff.1 hrun
    exact ih (hstep e s s₁ hs hmeets.1 hs₁) (hmeets.2 s₁ hs₁) hrest

/-- What every step keeps, every run keeps. -/
theorem run_invariant (hstep : ∀ e s s', I s → step e s = some s' → I s') {es : List ε} {s s' : σ}
    (hs : I s) (hrun : run step es s = some s') : I s' := by
  induction es generalizing s with
  | nil =>
    cases hrun
    exact hs
  | cons e es ih =>
    obtain ⟨s₁, hs₁, hrest⟩ := Option.bind_eq_some_iff.1 hrun
    exact ih (hstep e s s₁ hs hs₁) hrest

theorem run_append {es es' : List ε} {s s' : σ} (h : run step es s = some s') :
    run step (es ++ es') s = run step es' s' := by
  induction es generalizing s with
  | nil =>
    cases h
    rfl
  | cons e es ih =>
    obtain ⟨s₁, hs₁, hrest⟩ := Option.bind_eq_some_iff.1 h
    show (step e s).bind (run step (es ++ es')) = _
    rw [hs₁, Option.bind_some, ih hrest]

/-- What a state has it had from the start, or an event of the run brought it. -/
theorem run_origin {α : Type} {f : σ → α → Prop} {O : σ → ε → α → Prop}
    (hstep : ∀ e s s', I s → step e s = some s' → I s')
    (horigin : ∀ e s s' x, I s → step e s = some s' → f s' x → f s x ∨ O s e x) {es : List ε}
    {s s' : σ} (hs : I s) (hrun : run step es s = some s') {x : α} (hx : f s' x) :
    f s x ∨ ∃ es₁ e es₂ s₁, es = es₁ ++ e :: es₂ ∧ run step es₁ s = some s₁ ∧ O s₁ e x := by
  induction es generalizing s with
  | nil =>
    cases hrun
    exact .inl hx
  | cons e es ih =>
    obtain ⟨s₁, hs₁, hrest⟩ := Option.bind_eq_some_iff.1 hrun
    rcases ih (hstep e s s₁ hs hs₁) hrest with hx | ⟨es₁, e', es₂, s₂, rfl, hrun₂, ho⟩
    · rcases horigin e s s₁ x hs hs₁ hx with hx | ho
      · exact .inl hx
      · exact .inr ⟨[], e, es, s, rfl, rfl, ho⟩
    · refine .inr ⟨e :: es₁, e', es₂, s₂, rfl, ?_, ho⟩
      exact Option.bind_eq_some_iff.2 ⟨s₁, hs₁, hrun₂⟩

end Runs
