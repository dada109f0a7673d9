import DarknetSpace.Lib.FinMap
import Mathlib.Tactic.ByContra

/-!
# Maps of sets

A map from keys to sets of items that holds no empty set is a finite relation,
and is determined by it. The two edits that keep it so: put a pair in, and take
a pair out with its key when that was the last item.

Looking a key up gives its set, the empty one if there is none (`items`). `put` and
`take` are then insertions and erasures of a pair (`mem_put`, `mem_take`), and that no
empty set stays behind (`NoEmpty`) is what makes the key itself say something: it is in
the map just when some item belongs to it (`NoEmpty.contains_iff`).
-/

namespace SetMap

open Std

variable {κ ι : Type} {cmp : κ → κ → Ordering} {icmp : ι → ι → Ordering} [TransCmp cmp]

/-- The items of a key; none when the key is missing. -/
def items (m : ExtTreeMap κ (ExtTreeSet ι icmp) cmp) (k : κ) : ExtTreeSet ι icmp := m.getD k ∅

/-- No key has an empty set. -/
def NoEmpty (m : ExtTreeMap κ (ExtTreeSet ι icmp) cmp) : Prop :=
  ∀ (k : κ) s, m[k]? = some s → s.isEmpty = false

section

variable {m : ExtTreeMap κ (ExtTreeSet ι icmp) cmp} {k k' : κ}

theorem items_eq {s : ExtTreeSet ι icmp} (h : m[k]? = some s) : items m k = s := by
  rw [items, ExtTreeMap.getD_eq_getD_getElem?, h]
  rfl

theorem items_of_none (h : m[k]? = none) : items m k = ∅ := by
  rw [items, ExtTreeMap.getD_eq_getD_getElem?, h]
  rfl

theorem items_insert (s : ExtTreeSet ι icmp) :
    items (m.insert k s) k' = if cmp k k' = .eq then s else items m k' := by
  rw [items, items, ExtTreeMap.getD_eq_getD_getElem?, ExtTreeMap.getElem?_insert,
    ExtTreeMap.getD_eq_getD_getElem?]
  split <;> rfl

end

variable [TransCmp icmp]

/-- Put an item under a key. -/
def put (m : ExtTreeMap κ (ExtTreeSet ι icmp) cmp) (k : κ) (i : ι) :
    ExtTreeMap κ (ExtTreeSet ι icmp) cmp :=
  m.insert k ((items m k).insert i)

/-- Take an item out, and its key with the last one. -/
def take (m : ExtTreeMap κ (ExtTreeSet ι icmp) cmp) (k : κ) (i : ι) :
    ExtTreeMap κ (ExtTreeSet ι icmp) cmp :=
  let s := (items m k).erase i
  if s.isEmpty then m.erase k else m.insert k s

section

variable {m : ExtTreeMap κ (ExtTreeSet ι icmp) cmp} {k k' : κ} {i i' : ι}

theorem NoEmpty.put (h : NoEmpty m) (k : κ) (i : ι) : NoEmpty (put m k i) := by
  intro k' s hs
  rw [SetMap.put, ExtTreeMap.getElem?_insert] at hs
  split at hs
  · cases hs
    rw [ExtTreeSet.isEmpty_eq_false_iff]
    intro hnil
    have hmem : i ∈ (items m k).insert i := ExtTreeSet.mem_insert_self
    rw [hnil] at hmem
    exact ExtTreeSet.not_mem_empty hmem
  · exact h k' s hs

theorem NoEmpty.take (h : NoEmpty m) (k : κ) (i : ι) : NoEmpty (take m k i) := by
  unfold SetMap.take
  simp only
  split
  · intro k' s hs
    rw [ExtTreeMap.getElem?_erase] at hs
    split at hs
    · cases hs
    · exact h k' s hs
  · next hne =>
    intro k' s hs
    rw [ExtTreeMap.getElem?_insert] at hs
    split at hs
    · cases hs
      exact Bool.eq_false_iff.2 hne
    · exact h k' s hs

/-- A key is there exactly when it has an item. -/
theorem NoEmpty.contains_iff (h : NoEmpty m) : m.contains k = true ↔ ∃ i, i ∈ items m k := by
  rw [ExtTreeMap.contains_eq_isSome_getElem?]
  cases hk : m[k]? with
  | none =>
    rw [items_of_none hk]
    constructor
    · intro h'
      cases h'
    · intro ⟨i, hi⟩
      exact absurd hi ExtTreeSet.not_mem_empty
  | some s =>
    rw [items_eq hk]
    refine ⟨fun _ => ?_, fun _ => rfl⟩
    by_contra hnone
    have hs := h k s hk
    rw [ExtTreeSet.isEmpty_eq_false_iff] at hs
    exact hs (ExtTreeSet.eq_empty_iff_forall_not_mem.2 fun i hi => hnone ⟨i, hi⟩)

variable [LawfulEqCmp cmp] [LawfulEqCmp icmp]

theorem mem_put : i' ∈ items (put m k i) k' ↔ i' ∈ items m k' ∨ (k' = k ∧ i' = i) := by
  rw [put, items_insert]
  split
  · next hc =>
    obtain rfl := LawfulEqCmp.eq_of_compare hc
    rw [ExtTreeSet.mem_insert]
    constructor
    · rintro (hi | hi)
      · exact .inr ⟨rfl, (LawfulEqCmp.eq_of_compare hi).symm⟩
      · exact .inl hi
    · rintro (hi | ⟨-, rfl⟩)
      · exact .inr hi
      · exact .inl ReflCmp.compare_self
  · next hc =>
    constructor
    · intro hi
      exact .inl hi
    · rintro (hi | ⟨rfl, -⟩)
      · exact hi
      · exact absurd ReflCmp.compare_self hc

theorem mem_take : i' ∈ items (take m k i) k' ↔ i' ∈ items m k' ∧ ¬ (k' = k ∧ i' = i) := by
  have hset : i' ∈ (if cmp k k' = .eq then (items m k).erase i else items m k') ↔
      i' ∈ items m k' ∧ ¬ (k' = k ∧ i' = i) := by
    split
    · next hc =>
      obtain rfl := LawfulEqCmp.eq_of_compare hc
      rw [ExtTreeSet.mem_erase]
      constructor
      · intro ⟨hne, hi⟩
        exact ⟨hi, fun h => hne (by rw [h.2]; exact ReflCmp.compare_self)⟩
      · intro ⟨hi, hne⟩
        exact ⟨fun hc => hne ⟨rfl, (LawfulEqCmp.eq_of_compare hc).symm⟩, hi⟩
    · next hc =>
      constructor
      · intro hi
        exact ⟨hi, fun h => hc (by rw [h.1]; exact ReflCmp.compare_self)⟩
      · intro h
        exact h.1
  rw [← hset]
  unfold take
  simp only
  split
  · next hempty =>
    -- the key is gone, and so it would be with an empty set
    have hnil : (items m k).erase i = ∅ := ExtTreeSet.isEmpty_iff.1 hempty
    rw [hnil]
    rw [items, ExtTreeMap.getD_eq_getD_getElem?, ExtTreeMap.getElem?_erase]
    split
    · rfl
    · rw [items, ExtTreeMap.getD_eq_getD_getElem?]
  · rw [items_insert]

end

end SetMap
