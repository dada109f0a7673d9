/-!
# Codecs that can be read in two ways

A codec writes a value as bytes and reads it back from the front of a byte
string. Its reader has a lenient and a strict mode: the strict one gives up
wherever a primitive reports a failure, the lenient one may carry on. In either
mode what was written is read back; what the strict mode accepts is what would
be written; and the lenient mode reads everything the strict mode does, in the
same way. A byte string that the lenient mode accepts is therefore the encoding
of its value exactly when the strict mode accepts it too.

Codecs are put together from primitives: one after another (`seq`), counted sequences
(`vector`), tagged alternatives (`variant`) and a guard (`guarded`), and each of these
carries the three laws along. That something is always written is what makes counted
sequences safe to read: the count cannot promise more items than there are bytes.
-/

namespace DarknetSpace

/-! ## Writing -/

/-- What a writer put out, and whether it got to the end. -/
structure ByteOutput where
  bytes : List UInt8
  ok : Bool

namespace ByteOutput

/-- Go on with `b` unless `a` gave up. -/
def andThen (a b : ByteOutput) : ByteOutput := if a.ok then ⟨a.bytes ++ b.bytes, b.ok⟩ else a

theorem andThen_of_ok {a : ByteOutput} (h : a.ok = true) (b : ByteOutput) :
    a.andThen b = ⟨a.bytes ++ b.bytes, b.ok⟩ := if_pos h

/-- Two parts are written whole when both are. -/
theorem andThen_ok {a b : ByteOutput} : (a.andThen b).ok = true ↔ a.ok = true ∧ b.ok = true := by
  unfold andThen
  by_cases ha : a.ok = true
  · rw [if_pos ha]
    exact ⟨fun hb => ⟨ha, hb⟩, fun h => h.2⟩
  · rw [if_neg ha]
    exact ⟨fun h => absurd h ha, fun h => absurd h.1 ha⟩

theorem bytes_length_le_andThen (a b : ByteOutput) : a.bytes.length ≤ (a.andThen b).bytes.length := by
  unfold andThen
  split
  · rw [List.length_append]
    omega
  · exact Nat.le_refl _

end ByteOutput

/-- A writer and a reader with its two modes, and the laws that tie them together. -/
structure Codec (α : Type) where
  write : α → ByteOutput
  read : (strict : Bool) → List UInt8 → Option (α × List UInt8)
  read_write : ∀ strict x rest, (write x).ok = true →
    read strict ((write x).bytes ++ rest) = some (x, rest)
  ok_of_read : ∀ strict s x rest, read strict s = some (x, rest) → (write x).ok = true
  write_read : ∀ s x rest, read true s = some (x, rest) → s = (write x).bytes ++ rest
  loosen : ∀ s r, read true s = some r → read false s = some r

namespace Codec

variable {α β : Type}

/-! ## Whole byte strings -/

/-- The bytes of a value. -/
def encode (A : Codec α) (x : α) : List UInt8 := (A.write x).bytes

/-- Read leniently, to the end of the string. -/
def decode (A : Codec α) (s : List UInt8) : Option α :=
  match A.read false s with
  | some (x, []) => some x
  | _ => none

/-- The strict mode reads the whole string. -/
def Strict (A : Codec α) (s : List UInt8) : Prop := ∃ x, A.read true s = some (x, [])

/-- A byte string decodes to a value when reading it leaves nothing over. -/
theorem decode_eq_some {A : Codec α} {s : List UInt8} {x : α} :
    A.decode s = some x ↔ A.read false s = some (x, []) := by
  unfold decode
  constructor
  · intro h
    split at h
    · next y hr =>
      cases h
      exact hr
    · cases h
  · intro h
    rw [h]

/-- What was written whole decodes to the value. -/
theorem decode_encode (A : Codec α) {x : α} (h : (A.write x).ok = true) :
    A.decode (A.encode x) = some x := by
  rw [decode_eq_some]
  have := A.read_write false x [] h
  rw [List.append_nil] at this
  exact this

theorem encode_injective (A : Codec α) {x y : α} (hx : (A.write x).ok = true)
    (hy : (A.write y).ok = true) (h : A.encode x = A.encode y) : x = y := by
  have hread := A.decode_encode hx
  rw [h, A.decode_encode hy] at hread
  exact (Option.some.inj hread).symm

theorem ok_of_decode {A : Codec α} {s : List UInt8} {x : α} (h : A.decode s = some x) :
    (A.write x).ok = true :=
  A.ok_of_read false s x [] (decode_eq_some.1 h)

/-- An accepted string is canonical exactly when the strict mode accepts it. -/
theorem encode_eq_iff (A : Codec α) {s : List UInt8} {x : α} (h : A.decode s = some x) :
    A.encode x = s ↔ A.Strict s := by
  rw [decode_eq_some] at h
  constructor
  · intro he
    refine ⟨x, ?_⟩
    have := A.read_write true x [] (A.ok_of_read false s x [] h)
    rw [List.append_nil] at this
    rw [← he]
    exact this
  · intro ⟨y, hy⟩
    have hsame := (A.loosen s _ hy).symm.trans h
    cases hsame
    have := A.write_read s x [] hy
    rw [List.append_nil] at this
    exact this.symm

/-! ## One after another -/

/-- A pair: the first part, then the second. -/
def seq (A : Codec α) (B : Codec β) : Codec (α × β) where
  write x := (A.write x.1).andThen (B.write x.2)
  read strict s :=
    match A.read strict s with
    | none => none
    | some (a, s₁) =>
      match B.read strict s₁ with
      | none => none
      | some (b, s₂) => some ((a, b), s₂)
  read_write strict x rest h := by
    obtain ⟨ha, hb⟩ := ByteOutput.andThen_ok.1 h
    rw [ByteOutput.andThen_of_ok ha, List.append_assoc, A.read_write strict _ _ ha]
    simp only
    rw [B.read_write strict _ _ hb]
  ok_of_read strict s x rest h := by
    split at h
    · cases h
    · next a s₁ ha =>
      split at h
      · cases h
      · next b s₂ hb =>
        cases h
        exact ByteOutput.andThen_ok.2 ⟨A.ok_of_read _ _ _ _ ha, B.ok_of_read _ _ _ _ hb⟩
  write_read s x rest h := by
    split at h
    · cases h
    · next a s₁ ha =>
      split at h
      · cases h
      · next b s₂ hb =>
        cases h
        rw [ByteOutput.andThen_of_ok (A.ok_of_read _ _ _ _ ha), List.append_assoc,
          ← B.write_read _ _ _ hb]
        exact A.write_read _ _ _ ha
  loosen s r h := by
    split at h
    · cases h
    · next a s₁ ha =>
      split at h
      · cases h
      · next b s₂ hb =>
        rw [A.loosen _ _ ha]
        simp only
        rw [B.loosen _ _ hb]
        exact h

/-- A check behind a value, made on both ways. -/
def guarded (A : Codec α) (p : α → Bool) : Codec α where
  write x := ⟨(A.write x).bytes, (A.write x).ok && p x⟩
  read strict s :=
    match A.read strict s with
    | none => none
    | some (a, s₁) => if p a then some (a, s₁) else none
  read_write strict x rest h := by
    rw [Bool.and_eq_true] at h
    rw [A.read_write strict x rest h.1]
    simp only
    rw [if_pos h.2]
  ok_of_read strict s x rest h := by
    split at h
    · cases h
    · next a s₁ ha =>
      split at h
      · next hp =>
        cases h
        rw [A.ok_of_read _ _ _ _ ha, hp]
        rfl
      · cases h
  write_read s x rest h := by
    split at h
    · cases h
    · next a s₁ ha =>
      split at h
      · cases h
        exact A.write_read _ _ _ ha
      · cases h
  loosen s r h := by
    split at h
    · cases h
    · next a s₁ ha =>
      rw [A.loosen _ _ ha]
      exact h

/-- The values of `A`, seen as values of `β`. -/
def iso (A : Codec α) (f : α → β) (g : β → α) (hfg : ∀ y, f (g y) = y)
    (hgf : ∀ x, (A.write x).ok = true → g (f x) = x) : Codec β where
  write y := A.write (g y)
  read strict s :=
    match A.read strict s with
    | none => none
    | some (x, s₁) => some (f x, s₁)
  read_write strict y rest h := by
    rw [A.read_write strict _ _ h]
    simp only
    rw [hfg]
  ok_of_read strict s y rest h := by
    split at h
    · cases h
    · next x s₁ hx =>
      cases h
      have hok := A.ok_of_read _ _ _ _ hx
      rw [hgf x hok]
      exact hok
  write_read s y rest h := by
    split at h
    · cases h
    · next x s₁ hx =>
      cases h
      rw [hgf x (A.ok_of_read _ _ _ _ hx)]
      exact A.write_read _ _ _ hx
  loosen s r h := by
    split at h
    · cases h
    · next x s₁ hx =>
      rw [A.loosen _ _ hx]
      exact h

/-! ## Counted sequences -/

/-- A list written element by element, up to the first failure. -/
def writeAll (A : Codec α) : List α → ByteOutput
  | [] => ⟨[], true⟩
  | x :: xs => (A.write x).andThen (A.writeAll xs)

/-- As many elements as asked for, one after the other. -/
def readAll (A : Codec α) (strict : Bool) : Nat → List UInt8 → Option (List α × List UInt8)
  | 0, s => some ([], s)
  | n + 1, s =>
    match A.read strict s with
    | none => none
    | some (x, s₁) =>
      match A.readAll strict n s₁ with
      | none => none
      | some (xs, s₂) => some (x :: xs, s₂)

/-- A list written whole is read back. -/
theorem readAll_writeAll (A : Codec α) (strict : Bool) {xs : List α}
    (h : (A.writeAll xs).ok = true) (rest : List UInt8) :
    A.readAll strict xs.length ((A.writeAll xs).bytes ++ rest) = some (xs, rest) := by
  induction xs with
  | nil => rfl
  | cons x xs ih =>
    unfold writeAll at h ⊢
    obtain ⟨hx, hxs⟩ := ByteOutput.andThen_ok.1 h
    rw [ByteOutput.andThen_of_ok hx, List.append_assoc]
    show A.readAll strict (xs.length + 1) _ = _
    unfold readAll
    rw [A.read_write strict _ _ hx]
    simp only
    rw [ih hxs]

/-- What a list that was read looks like: its length, that it can be written, and in strict mode
that its bytes are the ones read. -/
theorem readAll_some {A : Codec α} {strict : Bool} {n : Nat} {s rest : List UInt8} {xs : List α}
    (h : A.readAll strict n s = some (xs, rest)) :
    xs.length = n ∧ (A.writeAll xs).ok = true ∧
      (strict = true → s = (A.writeAll xs).bytes ++ rest ∧
        A.readAll false n s = some (xs, rest)) := by
  induction n generalizing s xs with
  | zero =>
    cases h
    exact ⟨rfl, rfl, fun _ => ⟨rfl, rfl⟩⟩
  | succ n ih =>
    unfold readAll at h
    split at h
    · cases h
    · next x s₁ hx =>
      split at h
      · cases h
      · next ys s₂ hys =>
        cases h
        obtain ⟨hlen, hok, hstrict⟩ := ih hys
        have hxok := A.ok_of_read _ _ _ _ hx
        refine ⟨by rw [List.length_cons, hlen], ByteOutput.andThen_ok.2 ⟨hxok, hok⟩, ?_⟩
        rintro rfl
        obtain ⟨hs, hloose⟩ := hstrict rfl
        constructor
        · unfold writeAll
          rw [ByteOutput.andThen_of_ok hxok, List.append_assoc, ← hs]
          exact A.write_read _ _ _ hx
        · unfold readAll
          rw [A.loosen _ _ hx]
          simp only
          rw [hloose]

/-- If no element is empty, a list is no longer than its bytes. -/
theorem length_le_writeAll (A : Codec α) (hpos : ∀ x, 0 < (A.write x).bytes.length) {xs : List α}
    (h : (A.writeAll xs).ok = true) : xs.length ≤ (A.writeAll xs).bytes.length := by
  induction xs with
  | nil => exact Nat.zero_le _
  | cons x xs ih =>
    unfold writeAll at h ⊢
    obtain ⟨hx, hxs⟩ := ByteOutput.andThen_ok.1 h
    have := ih hxs
    have := hpos x
    rw [ByteOutput.andThen_of_ok hx, List.length_append, List.length_cons]
    omega

/-- A count and then the elements; a count of more elements than there are bytes
left is refused. -/
def vector (count : Codec Nat) (A : Codec α) (hpos : ∀ x, 0 < (A.write x).bytes.length) :
    Codec (List α) where
  write xs := (count.write xs.length).andThen (A.writeAll xs)
  read strict s :=
    match count.read strict s with
    | none => none
    | some (n, s₁) => if s₁.length < n then none else A.readAll strict n s₁
  read_write strict xs rest h := by
    obtain ⟨hn, hxs⟩ := ByteOutput.andThen_ok.1 h
    have := A.length_le_writeAll hpos hxs
    rw [ByteOutput.andThen_of_ok hn, List.append_assoc, count.read_write strict _ _ hn]
    simp only
    rw [if_neg (by rw [List.length_append]; omega), A.readAll_writeAll strict hxs]
  ok_of_read strict s xs rest h := by
    split at h
    · cases h
    · next n s₁ hn =>
      split at h
      · cases h
      · obtain ⟨hlen, hok, -⟩ := readAll_some h
        rw [hlen]
        exact ByteOutput.andThen_ok.2 ⟨count.ok_of_read _ _ _ _ hn, hok⟩
  write_read s xs rest h := by
    split at h
    · cases h
    · next n s₁ hn =>
      split at h
      · cases h
      · obtain ⟨hlen, -, hstrict⟩ := readAll_some h
        rw [hlen, ByteOutput.andThen_of_ok (count.ok_of_read _ _ _ _ hn), List.append_assoc,
          ← (hstrict rfl).1]
        exact count.write_read _ _ _ hn
  loosen s r h := by
    split at h
    · cases h
    · next n s₁ hn =>
      rw [count.loosen _ _ hn]
      simp only
      split at h
      · cases h
      · next hfit =>
        obtain ⟨xs, rest⟩ := r
        rw [if_neg hfit]
        exact ((readAll_some h).2.2 rfl).2

/-! ## Tagged alternatives -/

/-- One byte. -/
def byte : Codec UInt8 where
  write b := ⟨[b], true⟩
  read
    | _, [] => none
    | _, b :: s => some (b, s)
  read_write _ _ _ _ := rfl
  ok_of_read _ _ _ _ _ := rfl
  write_read s x rest h := by
    cases s with
    | nil => cases h
    | cons b s =>
      cases h
      rfl
  loosen s r h := by
    cases s with
    | nil => cases h
    | cons b s => exact h

end Codec

/-- The alternatives of a variant, told apart by a tag. -/
structure Alternatives (β : Type) where
  tag : β → UInt8
  write : β → ByteOutput
  read : (strict : Bool) → UInt8 → List UInt8 → Option (β × List UInt8)
  read_write : ∀ strict x rest, (write x).ok = true →
    read strict (tag x) ((write x).bytes ++ rest) = some (x, rest)
  ok_of_read : ∀ strict t s x rest, read strict t s = some (x, rest) → (write x).ok = true
  write_read : ∀ t s x rest, read true t s = some (x, rest) →
    t = tag x ∧ s = (write x).bytes ++ rest
  loosen : ∀ t s r, read true t s = some r → read false t s = some r

namespace Alternatives

variable {α β : Type}

/-- The alternative of a single tag. -/
def last (t : UInt8) (A : Codec α) : Alternatives α where
  tag _ := t
  write := A.write
  read strict t' s := if t' = t then A.read strict s else none
  read_write strict x rest h := by
    rw [if_pos rfl]
    exact A.read_write strict x rest h
  ok_of_read strict t' s x rest h := by
    split at h
    · exact A.ok_of_read _ _ _ _ h
    · cases h
  write_read t' s x rest h := by
    split at h
    · next ht => exact ⟨ht, A.write_read _ _ _ h⟩
    · cases h
  loosen t' s r h := by
    split at h
    · next ht =>
      rw [if_pos ht]
      exact A.loosen _ _ h
    · cases h

/-- `t` first, then the others. -/
def orElse (t : UInt8) (A : Codec α) (B : Alternatives β) (hfresh : ∀ y, B.tag y ≠ t) :
    Alternatives (α ⊕ β) where
  tag
    | .inl _ => t
    | .inr y => B.tag y
  write
    | .inl x => A.write x
    | .inr y => B.write y
  read strict t' s :=
    if t' = t then
      match A.read strict s with
      | none => none
      | some (x, s₁) => some (.inl x, s₁)
    else
      match B.read strict t' s with
      | none => none
      | some (y, s₁) => some (.inr y, s₁)
  read_write strict x rest h := by
    cases x with
    | inl x =>
      simp only
      rw [if_pos trivial, A.read_write strict _ _ h]
    | inr y =>
      simp only
      rw [if_neg (hfresh y), B.read_write strict _ _ h]
  ok_of_read strict t' s x rest h := by
    split at h
    · split at h
      · cases h
      · next hx =>
        cases h
        exact A.ok_of_read _ _ _ _ hx
    · split at h
      · cases h
      · next hy =>
        cases h
        exact B.ok_of_read _ _ _ _ _ hy
  write_read t' s x rest h := by
    split at h
    · next ht =>
      split at h
      · cases h
      · next hx =>
        cases h
        exact ⟨ht, A.write_read _ _ _ hx⟩
    · split at h
      · cases h
      · next hy =>
        cases h
        exact B.write_read _ _ _ _ hy
  loosen t' s r h := by
    split at h
    · next ht =>
      rw [if_pos ht]
      split at h
      · cases h
      · next hx =>
        rw [A.loosen _ _ hx]
        exact h
    · next ht =>
      rw [if_neg ht]
      split at h
      · cases h
      · next hy =>
        rw [B.loosen _ _ _ hy]
        exact h

end Alternatives

namespace Codec

variable {β : Type}

/-- The tag, then the alternative it names. -/
def variant (B : Alternatives β) : Codec β where
  write x := ⟨B.tag x :: (B.write x).bytes, (B.write x).ok⟩
  read
    | _, [] => none
    | strict, t :: s => B.read strict t s
  read_write strict x rest h := B.read_write strict x rest h
  ok_of_read strict s x rest h := by
    cases s with
    | nil => cases h
    | cons t s => exact B.ok_of_read _ _ _ _ _ h
  write_read s x rest h := by
    cases s with
    | nil => cases h
    | cons t s =>
      obtain ⟨rfl, hs⟩ := B.write_read _ _ _ _ h
      rw [hs]
      rfl
  loosen s r h := by
    cases s with
    | nil => cases h
    | cons t s => exact B.loosen _ _ _ h

/-! ## When everything is written -/

theorem seq_ok {α : Type} {A : Codec α} {B : Codec β} {x : α × β} :
    ((A.seq B).write x).ok = true ↔ (A.write x.1).ok = true ∧ (B.write x.2).ok = true :=
  ByteOutput.andThen_ok

theorem seq_encode {α : Type} {A : Codec α} {x : α} (h : (A.write x).ok = true) (B : Codec β)
    (y : β) : (A.seq B).encode (x, y) = A.encode x ++ B.encode y :=
  congrArg ByteOutput.bytes (ByteOutput.andThen_of_ok h (B.write y))

/-- How long a pair gets. -/
theorem seq_length_le {α : Type} {A : Codec α} {B : Codec β} {x : α × β} {m n : Nat}
    (hA : (A.encode x.1).length ≤ m) (hB : (B.encode x.2).length ≤ n) :
    ((A.seq B).encode x).length ≤ m + n := by
  show ((A.write x.1).andThen (B.write x.2)).bytes.length ≤ m + n
  unfold ByteOutput.andThen
  split
  · rw [List.length_append]
    exact Nat.add_le_add hA hB
  · exact Nat.le_add_right_of_le hA

theorem guarded_ok {A : Codec β} {p : β → Bool} {x : β} :
    ((A.guarded p).write x).ok = true ↔ (A.write x).ok = true ∧ p x = true :=
  Bool.and_eq_true_iff

/-- A list is written whole when its elements are. -/
theorem writeAll_ok {A : Codec β} {xs : List β} :
    (A.writeAll xs).ok = true ↔ ∀ x ∈ xs, (A.write x).ok = true := by
  induction xs with
  | nil => simp [writeAll]
  | cons x xs ih =>
    unfold writeAll
    rw [ByteOutput.andThen_ok, ih, List.forall_mem_cons]

theorem vector_ok {count : Codec Nat} {A : Codec β} {hpos : ∀ x, 0 < (A.write x).bytes.length}
    {xs : List β} : ((vector count A hpos).write xs).ok = true ↔
      (count.write xs.length).ok = true ∧ ∀ x ∈ xs, (A.write x).ok = true := by
  rw [← writeAll_ok]
  exact ByteOutput.andThen_ok

/-! ## Something is always written -/

theorem seq_pos {α : Type} {A : Codec α} {B : Codec β} (h : ∀ x, 0 < (A.write x).bytes.length)
    (x : α × β) : 0 < ((A.seq B).write x).bytes.length :=
  Nat.lt_of_lt_of_le (h x.1) (ByteOutput.bytes_length_le_andThen _ _)

theorem vector_pos {α : Type} {count : Codec Nat} {A : Codec α}
    {hpos : ∀ x, 0 < (A.write x).bytes.length} (h : ∀ n, 0 < (count.write n).bytes.length)
    (xs : List α) : 0 < ((vector count A hpos).write xs).bytes.length :=
  Nat.lt_of_lt_of_le (h xs.length) (ByteOutput.bytes_length_le_andThen _ _)

theorem variant_pos (B : Alternatives β) (x : β) : 0 < ((variant B).write x).bytes.length :=
  Nat.succ_pos _

end Codec

end DarknetSpace
