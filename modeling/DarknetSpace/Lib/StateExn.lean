/-!
# Stateful computations whose exceptions keep the state

`EStateM ε σ` is the shape of a C++ member function: it reads and writes the
object, returns a value, or leaves by an exception *with every write made so
far still in place*. This file is the small calculus the rest of the
development uses on it: how a sequence of two computations returned or threw
(`bind_eq_ok`, `bind_eq_error`), what a sequence does when its first half is
known (`bind_of_ok`, `bind_of_error`), and two invariant rules: `Keeps`, a
property every way out of a computation, exception included, preserves, and
`KeepsUpTo`, where only the exceptions a caller survives count.
-/

namespace StateExn

variable {ε σ α β : Type}

/-- The state a result carries, whichever way the computation ended. -/
def stateOf : EStateM.Result ε σ α → σ
  | .ok _ s => s
  | .error _ s => s

@[simp] theorem stateOf_ok (a : α) (s : σ) :
    stateOf (EStateM.Result.ok a s : EStateM.Result ε σ α) = s := rfl

@[simp] theorem stateOf_error (e : ε) (s : σ) :
    stateOf (EStateM.Result.error e s : EStateM.Result ε σ α) = s := rfl

@[simp] theorem pure_apply (a : α) (s : σ) :
    (pure a : EStateM ε σ α) s = .ok a s := rfl

@[simp] theorem throw_apply (e : ε) (s : σ) :
    (throw e : EStateM ε σ α) s = .error e s := rfl

@[simp] theorem get_apply (s : σ) : (get : EStateM ε σ σ) s = .ok s s := rfl

@[simp] theorem set_apply (s s' : σ) : (set s' : EStateM ε σ PUnit) s = .ok ⟨⟩ s' := rfl

@[simp] theorem modify_apply (f : σ → σ) (s : σ) :
    (modify f : EStateM ε σ PUnit) s = .ok ⟨⟩ (f s) := rfl

/-- A sequence runs its second half from the state the first one returned with, and throws what the
first one throws. -/
theorem bind_apply (x : EStateM ε σ α) (f : α → EStateM ε σ β) (s : σ) :
    (x >>= f) s = match x s with
      | .ok a s' => f a s'
      | .error e s' => .error e s' := rfl

theorem bind_of_ok {x : EStateM ε σ α} {f : α → EStateM ε σ β} {s s' : σ} {a : α}
    (h : x s = .ok a s') : (x >>= f) s = f a s' := by
  rw [bind_apply, h]

theorem bind_of_error {x : EStateM ε σ α} {f : α → EStateM ε σ β} {s s' : σ} {e : ε}
    (h : x s = .error e s') : (x >>= f) s = .error e s' := by
  rw [bind_apply, h]

/-- A sequence returned: both halves did. -/
theorem bind_eq_ok {x : EStateM ε σ α} {f : α → EStateM ε σ β} {s s'' : σ} {b : β} :
    (x >>= f) s = .ok b s'' ↔ ∃ a s', x s = .ok a s' ∧ f a s' = .ok b s'' := by
  rw [bind_apply]
  cases x s with
  | ok a s' =>
    constructor
    · intro h; exact ⟨a, s', rfl, h⟩
    · rintro ⟨_, _, h, h'⟩
      cases h; exact h'
  | error e s' =>
    constructor
    · intro h; cases h
    · rintro ⟨_, _, h, _⟩
      cases h

/-- A sequence threw: the first half did, or it returned and the second did. -/
theorem bind_eq_error {x : EStateM ε σ α} {f : α → EStateM ε σ β} {s s'' : σ} {e : ε} :
    (x >>= f) s = .error e s'' ↔
      x s = .error e s'' ∨ ∃ a s', x s = .ok a s' ∧ f a s' = .error e s'' := by
  rw [bind_apply]
  cases x s with
  | ok a s' =>
    constructor
    · intro h; exact .inr ⟨a, s', rfl, h⟩
    · rintro (h | ⟨_, _, h, h'⟩)
      · cases h
      · cases h; exact h'
  | error e' s' =>
    constructor
    · intro h; cases h; exact .inl rfl
    · rintro (h | ⟨_, _, h, _⟩)
      · cases h; rfl
      · cases h

/-! ## Embedding smaller computations -/

/-- A reader: it may throw, and never writes. -/
def reads (f : σ → Except ε α) : EStateM ε σ α := fun s =>
  match f s with
  | .ok a => .ok a s
  | .error e => .error e s

/-- A reader that returned left the state. -/
theorem reads_eq_ok {f : σ → Except ε α} {s s' : σ} {a : α}
    (h : reads f s = .ok a s') : f s = .ok a ∧ s' = s := by
  unfold reads at h
  split at h
  · next hf =>
    cases h
    exact ⟨hf, rfl⟩
  · cases h

/-- A reader returns what its function returns. -/
theorem reads_of_ok {f : σ → Except ε α} {s : σ} {a : α} (h : f s = .ok a) :
    reads f s = .ok a s := by
  rw [reads, h]

/-- A reader throws what its function throws, from the same state. -/
theorem reads_of_error {f : σ → Except ε α} {s : σ} {e : ε} (h : f s = .error e) :
    reads f s = .error e s := by
  rw [reads, h]

/-- Run a computation on one component of a larger state. -/
def zoom {τ : Type} (view : σ → τ) (update : σ → τ → σ) (x : EStateM ε τ α) :
    EStateM ε σ α := fun s =>
  match x (view s) with
  | .ok a t => .ok a (update s t)
  | .error e t => .error e (update s t)

/-- A computation on a part that returns writes the part back. -/
theorem zoom_of_ok {τ : Type} {view : σ → τ} {update : σ → τ → σ} {x : EStateM ε τ α}
    {s : σ} {a : α} {t : τ} (h : x (view s) = .ok a t) :
    zoom view update x s = .ok a (update s t) := by
  rw [zoom, h]

/-- A computation on a part that throws writes the part back too: the writes before the exception
stay. -/
theorem zoom_of_error {τ : Type} {view : σ → τ} {update : σ → τ → σ} {x : EStateM ε τ α}
    {s : σ} {e : ε} {t : τ} (h : x (view s) = .error e t) :
    zoom view update x s = .error e (update s t) := by
  rw [zoom, h]

/-! ## Invariants -/

/-- Every way out of `x` — a value or an exception — preserves `P`. -/
def Keeps (P : σ → Prop) (x : EStateM ε σ α) : Prop :=
  ∀ s, P s → P (stateOf (x s))

theorem Keeps.pure {P : σ → Prop} (a : α) : Keeps P (pure a : EStateM ε σ α) :=
  fun _ h => h

theorem Keeps.throw {P : σ → Prop} (e : ε) : Keeps P (throw e : EStateM ε σ α) :=
  fun _ h => h

theorem Keeps.get {P : σ → Prop} : Keeps P (get : EStateM ε σ σ) :=
  fun _ h => h

/-- A reader keeps every property. -/
theorem Keeps.reads {P : σ → Prop} (f : σ → Except ε α) : Keeps P (reads f) := by
  intro s hs
  unfold StateExn.reads
  split <;> exact hs

/-- A modification keeps what its function keeps. -/
theorem Keeps.modify {P : σ → Prop} {f : σ → σ} (h : ∀ s, P s → P (f s)) :
    Keeps P (modify f : EStateM ε σ PUnit) :=
  h

/-- A sequence keeps what both halves keep. -/
theorem Keeps.bind {P : σ → Prop} {x : EStateM ε σ α} {f : α → EStateM ε σ β}
    (hx : Keeps P x) (hf : ∀ a, Keeps P (f a)) : Keeps P (x >>= f) := by
  intro s hs
  have h1 := hx s hs
  rw [bind_apply]
  cases h : x s with
  | ok a s' => rw [h] at h1; exact hf a s' h1
  | error e s' => rw [h] at h1; exact h1

/-- Two properties kept on their own are kept together. -/
theorem Keeps.and {P Q : σ → Prop} {x : EStateM ε σ α} (hP : Keeps P x) (hQ : Keeps Q x) :
    Keeps (fun s => P s ∧ Q s) x :=
  fun s hs => ⟨hP s hs.1, hQ s hs.2⟩

/-- A conditional keeps what both branches keep. -/
theorem Keeps.ite {P : σ → Prop} {c : Prop} [Decidable c] {x y : EStateM ε σ α}
    (hx : Keeps P x) (hy : Keeps P y) : Keeps P (if c then x else y) := by
  split
  · exact hx
  · exact hy

/-- Every way out of `x` that returns, or throws an exception of `E`,
preserves `P`. -/
def KeepsUpTo (E : ε → Prop) (P : σ → Prop) (x : EStateM ε σ α) : Prop :=
  ∀ s, P s → match x s with
    | .ok _ s' => P s'
    | .error e s' => E e → P s'

section

variable {E : ε → Prop} {P : σ → Prop}

/-- What every way out keeps, the ways out that count keep. -/
theorem Keeps.upTo {x : EStateM ε σ α} (h : Keeps P x) : KeepsUpTo E P x := by
  intro s hs
  have hx := h s hs
  split
  · next heq => rw [heq] at hx; exact hx
  · next heq => rw [heq] at hx; exact fun _ => hx

/-- The property after a computation that returned. -/
theorem KeepsUpTo.ok {x : EStateM ε σ α} (h : KeepsUpTo E P x) {s s' : σ} {a : α} (hs : P s)
    (hx : x s = .ok a s') : P s' := by
  have := h s hs
  rwa [hx] at this

/-- The property after a computation that threw an exception that counts. -/
theorem KeepsUpTo.error {x : EStateM ε σ α} (h : KeepsUpTo E P x) {s s' : σ} {e : ε} (hs : P s)
    (hx : x s = .error e s') (he : E e) : P s' := by
  have := h s hs
  rw [hx] at this
  exact this he

/-- A sequence keeps what both halves keep. -/
theorem KeepsUpTo.bind {x : EStateM ε σ α} {f : α → EStateM ε σ β}
    (hx : KeepsUpTo E P x) (hf : ∀ a, KeepsUpTo E P (f a)) : KeepsUpTo E P (x >>= f) := by
  intro s hs
  rw [bind_apply]
  cases h : x s with
  | ok a s' => exact hf a s' (hx.ok hs h)
  | error e s' => exact hx.error hs h

/-- A conditional keeps what both branches keep. -/
theorem KeepsUpTo.ite {c : Prop} [Decidable c] {x y : EStateM ε σ α}
    (hx : KeepsUpTo E P x) (hy : KeepsUpTo E P y) : KeepsUpTo E P (if c then x else y) := by
  split
  · exact hx
  · exact hy

end

/-! ## What a computation can return -/

/-- The value returned, if one was. -/
def returned : EStateM.Result ε σ α → Option α
  | .ok a _ => some a
  | .error _ _ => none

/-- A computation that returned a value is that value with the state it left. -/
theorem eq_returned {r : EStateM.Result ε σ α} {a : α} (h : returned r = some a) :
    r = .ok a (stateOf r) := by
  cases r with
  | ok b s =>
    cases h
    rfl
  | error e s => cases h

/-- Every value `x` returns satisfies `V`. -/
def Returns (V : α → Prop) (x : EStateM ε σ α) : Prop := ∀ s a s', x s = .ok a s' → V a

/-- Returning a value that satisfies the property. -/
theorem Returns.pure {V : α → Prop} {a : α} (h : V a) : Returns V (pure a : EStateM ε σ α) := by
  intro s a' s' ha
  cases ha
  exact h

/-- A sequence returns what its second half returns. -/
theorem Returns.bind {V : β → Prop} {x : EStateM ε σ α} {f : α → EStateM ε σ β}
    (h : ∀ a, Returns V (f a)) : Returns V (x >>= f) := by
  intro s b s'' hb
  obtain ⟨a, s', _, hf⟩ := bind_eq_ok.1 hb
  exact h a s' b s'' hf

/-- A conditional returns what one of its branches returns. -/
theorem Returns.ite {V : α → Prop} {c : Prop} [Decidable c] {x y : EStateM ε σ α}
    (hx : Returns V x) (hy : Returns V y) : Returns V (if c then x else y) := by
  by_cases hc : c
  · rw [if_pos hc]
    exact hx
  · rw [if_neg hc]
    exact hy

/-! ## Without a state -/

/-- A sequence of two fallible computations succeeds when both do. -/
theorem bind_eq_ok_except {x : Except ε α} {f : α → Except ε β} {b : β} :
    (x >>= f) = .ok b ↔ ∃ a, x = .ok a ∧ f a = .ok b := by
  cases x with
  | error e =>
    constructor
    · intro h
      cases h
    · rintro ⟨_, h, _⟩
      cases h
  | ok a =>
    constructor
    · intro h
      exact ⟨a, rfl, h⟩
    · rintro ⟨_, h, hf⟩
      cases h
      exact hf

end StateExn
