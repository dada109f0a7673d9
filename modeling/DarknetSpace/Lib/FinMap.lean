import Std.Data.ExtTreeMap
import Std.Data.ExtTreeSet
import Mathlib.Tactic.Tauto

/-!
# Undoing insertions in finite maps and sets

Extensional tree maps and sets are equal when they hold the same entries, so
taking out what was just put in gives the original container back, provided
the key was not there before.

The second part is about writing a container out as a list and reading it back: the list
has every entry once, its order is that of the keys, and a list in any order makes the
same map again (`ofList_of_perm`). A list that breaks off makes a map of what is in its
beginning. The last part is about the values of a map as a list, up to order.
-/

namespace FinMap

open Std

variable {α β : Type} {cmp : α → α → Ordering} [TransCmp cmp] [LawfulEqCmp cmp]

theorem getElem?_insert_ne {m : ExtTreeMap α β cmp} {k a : α} {v : β} (h : a ≠ k) :
    (m.insert k v)[a]? = m[a]? := by
  rw [ExtTreeMap.getElem?_insert, if_neg]
  intro he
  exact h (LawfulEqCmp.eq_of_compare he).symm

theorem getElem?_erase_ne {m : ExtTreeMap α β cmp} {k a : α} (h : a ≠ k) :
    (m.erase k)[a]? = m[a]? := by
  rw [ExtTreeMap.getElem?_erase, if_neg]
  intro he
  exact h (LawfulEqCmp.eq_of_compare he).symm

/-- Erasing a key that is not there changes nothing. -/
theorem erase_of_none {m : ExtTreeMap α β cmp} {k : α} (h : m[k]? = none) : m.erase k = m := by
  apply ExtTreeMap.ext_getElem?
  intro a
  rw [ExtTreeMap.getElem?_erase]
  split
  · next hc => rw [← LawfulEqCmp.eq_of_compare hc, h]
  · rfl

/-- Erasing a key just inserted gives the original map back, if the key is new. -/
theorem erase_insert_of_not_contains {m : ExtTreeMap α β cmp} {k : α} (v : β)
    (h : m[k]? = none) : (m.insert k v).erase k = m := by
  apply ExtTreeMap.ext_getElem?
  intro a
  rw [ExtTreeMap.getElem?_erase, ExtTreeMap.getElem?_insert]
  split
  · next hc => rw [← LawfulEqCmp.eq_of_compare hc, h]
  · rfl

theorem insert_insert (m : ExtTreeMap α β cmp) (k : α) (v w : β) :
    (m.insert k v).insert k w = m.insert k w := by
  apply ExtTreeMap.ext_getElem?
  intro a
  simp only [ExtTreeMap.getElem?_insert]
  split <;> rfl

/-- Erasing forgets what was inserted at the key. -/
theorem erase_insert (m : ExtTreeMap α β cmp) (k : α) (v : β) :
    (m.insert k v).erase k = m.erase k := by
  apply ExtTreeMap.ext_getElem?
  intro a
  simp only [ExtTreeMap.getElem?_erase, ExtTreeMap.getElem?_insert]
  split <;> rfl

/-- Inserting the entry that is already there changes nothing. -/
theorem insert_eq_self {m : ExtTreeMap α β cmp} {k : α} {v : β} (h : m[k]? = some v) :
    m.insert k v = m := by
  apply ExtTreeMap.ext_getElem?
  intro a
  rw [ExtTreeMap.getElem?_insert]
  split
  · next hc => rw [← LawfulEqCmp.eq_of_compare hc, h]
  · rfl

/-- `insertIfNew` at a new key is an insertion. -/
theorem insertIfNew_eq_insert {m : ExtTreeMap α β cmp} {k : α} (v : β)
    (h : m[k]? = none) : m.insertIfNew k v = m.insert k v := by
  apply ExtTreeMap.ext_getElem?
  intro a
  rw [ExtTreeMap.getElem?_insertIfNew, ExtTreeMap.getElem?_insert]
  have hm : k ∉ m := fun hk => by simp [hk] at h
  split
  · next hc =>
    rw [if_pos hc.1]
  · next hc =>
    split
    · next hk => exact absurd ⟨hk, hm⟩ hc
    · rfl

/-- Entries that are there already win over `insertIfNew`, wherever they come
from. -/
theorem getElem?_insertIfNew_or {s d e : ExtTreeMap α β cmp} (h : ∀ a : α, e[a]? = s[a]?.or d[a]?)
    (k : α) (v : β) (a : α) :
    (e.insertIfNew k v)[a]? = s[a]?.or (d.insertIfNew k v)[a]? := by
  rw [ExtTreeMap.getElem?_insertIfNew, ExtTreeMap.getElem?_insertIfNew]
  by_cases hc : cmp k a = .eq
  · have hk := LawfulEqCmp.eq_of_compare hc
    subst hk
    have he : k ∈ e ↔ k ∈ s ∨ k ∈ d := by
      simp only [← ExtTreeMap.isSome_getElem?_iff_mem, h, Option.isSome_or, Bool.or_eq_true]
    by_cases hs : k ∈ s
    · obtain ⟨w, hw⟩ := Option.isSome_iff_exists.1 (ExtTreeMap.isSome_getElem?_iff_mem.2 hs)
      rw [if_neg (by rw [he]; tauto), h, hw]
      rfl
    · have hn : s[k]? = none := by simpa using hs
      have hed : k ∈ e ↔ k ∈ d := by rw [he, or_iff_right hs]
      rw [h, hn, Option.none_or, Option.none_or]
      simp only [hed]
  · rw [if_neg (by tauto), if_neg (by tauto), h]

/-- Two maps with the same keys and the same values up to a fallback are equal. -/
theorem ext_getD {m m' : ExtTreeMap α β cmp} (fallback : β) (hm : ∀ a, a ∈ m' ↔ a ∈ m)
    (hg : ∀ a, m'.getD a fallback = m.getD a fallback) : m' = m := by
  apply ExtTreeMap.ext_getElem?
  intro a
  have hga := hg a
  rw [ExtTreeMap.getD_eq_getD_getElem?, ExtTreeMap.getD_eq_getD_getElem?] at hga
  by_cases ha : a ∈ m
  · obtain ⟨v, hv⟩ := Option.isSome_iff_exists.1 (ExtTreeMap.isSome_getElem?_iff_mem.2 ha)
    obtain ⟨v', hv'⟩ :=
      Option.isSome_iff_exists.1 (ExtTreeMap.isSome_getElem?_iff_mem.2 ((hm a).2 ha))
    rw [hv, hv'] at hga ⊢
    exact congrArg some hga
  · have hn : m[a]? = none := by simpa using ha
    have hn' : m'[a]? = none := by simpa using fun h => ha ((hm a).1 h)
    rw [hn, hn']

/-- Erasing a list of elements from a set leaves the others. -/
theorem mem_foldl_erase {m : ExtTreeSet α cmp} {ks : List α} {a : α} :
    a ∈ ks.foldl (fun m k => m.erase k) m ↔ a ∈ m ∧ a ∉ ks := by
  induction ks generalizing m with
  | nil => simp
  | cons k rest ih =>
    rw [List.foldl_cons, ih, ExtTreeSet.mem_erase]
    have hk : cmp k a ≠ .eq ↔ a ≠ k := by
      constructor
      · rintro hc rfl
        exact hc ReflCmp.compare_self
      · intro hne hc
        exact hne (LawfulEqCmp.eq_of_compare hc).symm
    rw [hk, List.mem_cons]
    tauto

/-- Taking out what was put in, when none of it was there. -/
theorem foldl_erase_insertMany [BEq α] [LawfulBEq α] [LawfulBEqCmp cmp] {m : ExtTreeSet α cmp}
    {ks : List α} (h : ∀ k ∈ ks, k ∉ m) :
    ks.foldl (fun m k => m.erase k) (m.insertMany ks) = m := by
  apply ExtTreeSet.ext_mem
  intro a
  rw [mem_foldl_erase, ExtTreeSet.mem_insertMany_list]
  constructor
  · rintro ⟨hm | hk, hn⟩
    · exact hm
    · exact absurd (by simpa using hk) hn
  · intro hm
    exact ⟨.inl hm, fun hk => h a hk hm⟩

/-! ## Writing a container out and reading it back -/

/-- A map built from a list with distinct keys holds exactly the pairs of the list. -/
theorem getElem?_ofList [BEq α] [LawfulBEq α] [LawfulBEqCmp cmp] {l : List (α × β)}
    (hd : l.Pairwise fun a b => ¬ cmp a.1 b.1 = .eq) {a : α} {v : β} :
    (ExtTreeMap.ofList l cmp)[a]? = some v ↔ (a, v) ∈ l := by
  constructor
  · intro h
    have hm : a ∈ ExtTreeMap.ofList l cmp := ExtTreeMap.isSome_getElem?_iff_mem.1 (by rw [h]; rfl)
    rw [ExtTreeMap.mem_ofList, List.contains_iff_mem, List.mem_map] at hm
    obtain ⟨⟨a', w⟩, hw, rfl⟩ := hm
    rw [ExtTreeMap.getElem?_ofList_of_mem ReflCmp.compare_self hd hw] at h
    cases h
    exact hw
  · exact ExtTreeMap.getElem?_ofList_of_mem ReflCmp.compare_self hd

omit [LawfulEqCmp cmp] in
theorem pairwise_of_perm_toList {m : ExtTreeMap α β cmp} {l : List (α × β)} (h : l.Perm m.toList) :
    l.Pairwise fun a b => ¬ cmp a.1 b.1 = .eq := by
  refine (h.pairwise_iff fun hab => ?_).2 ExtTreeMap.distinct_keys_toList
  exact fun hba => hab (OrientedCmp.eq_symm hba)

/-- Reading all entries back, in whatever order. -/
theorem ofList_of_perm [BEq α] [LawfulBEq α] [LawfulBEqCmp cmp] {m : ExtTreeMap α β cmp}
    {l : List (α × β)} (h : l.Perm m.toList) : ExtTreeMap.ofList l cmp = m := by
  apply ExtTreeMap.ext_getElem?
  intro a
  refine Option.ext fun v => ?_
  rw [getElem?_ofList (pairwise_of_perm_toList h), h.mem_iff,
    ExtTreeMap.mem_toList_iff_getElem?_eq_some]

/-- Reading some entries back. -/
theorem getElem?_ofList_take [BEq α] [LawfulBEq α] [LawfulBEqCmp cmp] {m : ExtTreeMap α β cmp}
    {l : List (α × β)} (h : l.Perm m.toList) {k : Nat} {a : α} {v : β}
    (ha : (ExtTreeMap.ofList (l.take k) cmp)[a]? = some v) : m[a]? = some v := by
  have hd := (pairwise_of_perm_toList h).sublist (List.take_sublist k l)
  rw [← ExtTreeMap.mem_toList_iff_getElem?_eq_some, ← h.mem_iff]
  exact List.mem_of_mem_take ((getElem?_ofList hd).1 ha)

theorem set_ofList_of_perm [BEq α] [LawfulBEq α] [LawfulBEqCmp cmp] {m : ExtTreeSet α cmp}
    {l : List α} (h : l.Perm m.toList) : ExtTreeSet.ofList l cmp = m := by
  apply ExtTreeSet.ext_mem
  intro a
  rw [ExtTreeSet.mem_ofList, List.contains_iff_mem, h.mem_iff, ExtTreeSet.mem_toList]

/-- What was rebuilt from the first elements only is part of the set. -/
theorem mem_of_mem_ofList_take [BEq α] [LawfulBEq α] [LawfulBEqCmp cmp] {m : ExtTreeSet α cmp}
    {l : List α} (h : l.Perm m.toList) {k : Nat} {a : α}
    (ha : a ∈ ExtTreeSet.ofList (l.take k) cmp) : a ∈ m := by
  rw [ExtTreeSet.mem_ofList, List.contains_iff_mem] at ha
  rw [← ExtTreeSet.mem_toList, ← h.mem_iff]
  exact List.mem_of_mem_take ha

/-! ## Values -/

omit [LawfulEqCmp cmp] in
/-- The values of a map in the order of its keys. -/
theorem values_eq_map_toList (m : ExtTreeMap α β cmp) : m.values = m.toList.map Prod.snd := by
  obtain ⟨m⟩ := m
  induction m using ExtDTreeMap.inductionOn with
  | mk t =>
    show t.inner.values = (DTreeMap.Internal.Impl.Const.toList t.inner).map Prod.snd
    rw [DTreeMap.Internal.Impl.values_eq_map_snd,
      DTreeMap.Internal.Impl.Const.toList_eq_toListModel_map, List.map_map]
    rfl

omit [LawfulEqCmp cmp] in
theorem nodup_toList (m : ExtTreeMap α β cmp) : m.toList.Nodup := by
  refine ExtTreeMap.distinct_keys_toList.imp ?_
  rintro a b hab rfl
  exact hab ReflCmp.compare_self

/-- A new entry adds its value to the values. -/
theorem values_insert_perm {m : ExtTreeMap α β cmp} {k : α} (v : β) (h : m[k]? = none) :
    (m.insert k v).values.Perm (v :: m.values) := by
  rw [values_eq_map_toList, values_eq_map_toList]
  have hnew : (k, v) ∉ m.toList := by
    rw [ExtTreeMap.mem_toList_iff_getElem?_eq_some, h]
    exact nofun
  have hperm : (m.insert k v).toList.Perm ((k, v) :: m.toList) := by
    rw [List.perm_ext_iff_of_nodup (nodup_toList _) (List.nodup_cons.2 ⟨hnew, nodup_toList m⟩)]
    rintro ⟨a, b⟩
    rw [ExtTreeMap.mem_toList_iff_getElem?_eq_some, List.mem_cons,
      ExtTreeMap.mem_toList_iff_getElem?_eq_some]
    by_cases ha : a = k
    · subst ha
      rw [ExtTreeMap.getElem?_insert_self, h]
      simp [eq_comm]
    · rw [getElem?_insert_ne ha]
      simp [ha]
  exact hperm.map Prod.snd

end FinMap
