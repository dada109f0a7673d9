import DarknetSpace.Lib.FinMap
import Mathlib.Data.List.Nodup

/-!
# A least-recently-used pool

A pool is a map together with a list of its keys in the order of their last
use, the oldest first. Each map entry holds the iterator of its list node and
each list node the iterator of its map entry, so that both can be found from
either side in constant time. A list iterator is the identity of a node, given
out by `fresh` when the node is made; a map iterator is the key of its entry.

`WF cap` says that the two sides are in bijection and that there are at most
`cap` of them. Every operation keeps it, and `find?` of each is the one of a
map some of whose entries have been dropped.
-/

open Std FinMap

/-- Entries by key, their nodes in order of use, and the next node's number. -/
structure Lru (κ ν : Type) (cmp : κ → κ → Ordering) where
  items : ExtTreeMap κ (ν × Nat) cmp
  cache : List (Nat × κ)
  fresh : Nat

namespace Lru

variable {κ ν : Type} {cmp : κ → κ → Ordering} [TransCmp cmp]

/-- Nothing in it. -/
def empty : Lru κ ν cmp := ⟨∅, [], 0⟩

/-- The stored value of a key. -/
def find? (c : Lru κ ν cmp) (k : κ) : Option ν := c.items[k]?.map Prod.fst

/-- Unlink the node `node`. -/
def unlink (cache : List (Nat × κ)) (node : Nat) : List (Nat × κ) :=
  cache.filter fun n => n.1 != node

/-- Move the node `node` to the end of the list. -/
def splice (cache : List (Nat × κ)) (node : Nat) : List (Nat × κ) :=
  unlink cache node ++ cache.filter fun n => n.1 == node

/-- A hit: the entry's node goes to the end, unless it is there already. -/
def touch (c : Lru κ ν cmp) (k : κ) : Lru κ ν cmp :=
  match c.items[k]? with
  | none => c
  | some (_, node) =>
    if c.cache.getLast?.map Prod.fst = some node then c
    else { c with cache := splice c.cache node }

/-- Drop the entry of the first node, then the node. -/
def evict (c : Lru κ ν cmp) : Lru κ ν cmp :=
  match c.cache with
  | [] => c
  | n :: rest => { c with items := c.items.erase n.2, cache := rest }

/-- Make room if the list has `cap` nodes, then store `v` under `k`. -/
def put (cap : Nat) (k : κ) (v : ν) (c : Lru κ ν cmp) : Lru κ ν cmp :=
  let c := if c.cache.length = cap then c.evict else c
  match c.items[k]? with
  | some (_, node) => { c with items := c.items.insert k (v, node) }
  | none =>
    { items := c.items.insert k (v, c.fresh), cache := c.cache ++ [(c.fresh, k)],
      fresh := c.fresh + 1 }

/-- Take a key out, node and entry. -/
def erase (c : Lru κ ν cmp) (k : κ) : Lru κ ν cmp :=
  match c.items[k]? with
  | none => c
  | some (_, node) => { c with items := c.items.erase k, cache := unlink c.cache node }

/-- The two sides are in bijection, and there is room for all of them. -/
structure WF (cap : Nat) (c : Lru κ ν cmp) : Prop where
  nodes : (c.cache.map Prod.fst).Nodup
  old : ∀ n ∈ c.cache, n.1 < c.fresh
  listed : ∀ k v node, c.items[k]? = some (v, node) → (node, k) ∈ c.cache
  held : ∀ n ∈ c.cache, ∃ v, c.items[n.2]? = some (v, n.1)
  room : c.cache.length ≤ cap

/-! ## The list -/

section

omit [TransCmp cmp]

theorem mem_unlink {cache : List (Nat × κ)} {node : Nat} {n : Nat × κ} :
    n ∈ unlink cache node ↔ n ∈ cache ∧ n.1 ≠ node := by
  rw [unlink, List.mem_filter, bne_iff_ne]

/-- Moving a node to the end keeps the nodes. -/
theorem splice_perm (cache : List (Nat × κ)) (node : Nat) : (splice cache node).Perm cache := by
  have h : cache.filter (fun n => n.1 == node) =
      cache.filter (fun n => !(n.1 != node)) := by
    apply List.filter_congr
    intro n _
    rw [bne, Bool.not_not]
  unfold splice unlink
  rw [h]
  exact List.filter_append_perm _ cache

end

/-! ## Keys -/

variable {cap : Nat} {c : Lru κ ν cmp}

/-- A key has one node. -/
theorem WF.node_unique (h : WF cap c) {n m : Nat × κ} (hn : n ∈ c.cache) (hm : m ∈ c.cache)
    (hk : n.2 = m.2) : n = m := by
  obtain ⟨v, hv⟩ := h.held n hn
  obtain ⟨w, hw⟩ := h.held m hm
  rw [hk, hw] at hv
  have hnode : m.1 = n.1 := (Prod.mk.inj (Option.some.inj hv)).2
  exact Prod.ext hnode.symm hk

theorem WF.keys_nodup (h : WF cap c) : (c.cache.map Prod.snd).Nodup := by
  have hn : c.cache.Nodup := List.Nodup.of_map _ h.nodes
  refine (List.nodup_map_iff_inj_on hn).2 ?_
  intro n hn m hm hk
  exact h.node_unique hn hm hk

/-- What is found is in the map, -/
theorem find?_eq_some {k : κ} {v : ν} : c.find? k = some v ↔ ∃ node, c.items[k]? = some (v, node) := by
  unfold find?
  rw [Option.map_eq_some_iff]
  constructor
  · rintro ⟨⟨w, node⟩, h, rfl⟩
    exact ⟨node, h⟩
  · rintro ⟨node, h⟩
    exact ⟨_, h, rfl⟩

theorem find?_eq_none {k : κ} : c.find? k = none ↔ c.items[k]? = none := by
  unfold find?
  rw [Option.map_eq_none_iff]

/-- The keys of the list are those that are found. -/
theorem WF.mem_keys (h : WF cap c) {k : κ} :
    k ∈ c.cache.map Prod.snd ↔ ∃ v, c.find? k = some v := by
  rw [List.mem_map]
  constructor
  · rintro ⟨n, hn, rfl⟩
    obtain ⟨v, hv⟩ := h.held n hn
    exact ⟨v, find?_eq_some.2 ⟨n.1, hv⟩⟩
  · rintro ⟨v, hv⟩
    obtain ⟨node, hnode⟩ := find?_eq_some.1 hv
    exact ⟨_, h.listed k v node hnode, rfl⟩

/-! ## Empty -/

theorem wf_empty : WF cap (empty : Lru κ ν cmp) where
  nodes := List.nodup_nil
  old := by simp [empty]
  listed := by simp [empty]
  held := by simp [empty]
  room := Nat.zero_le _

theorem find?_empty (k : κ) : (empty : Lru κ ν cmp).find? k = none := by
  simp [find?, empty]

/-! ## Touch -/

theorem find?_touch (c : Lru κ ν cmp) (k k' : κ) : (c.touch k).find? k' = c.find? k' := by
  unfold touch
  split
  · rfl
  · split <;> rfl

/-- Another order of the nodes changes nothing. -/
theorem WF.reorder (h : WF cap c) {cache : List (Nat × κ)} (hp : cache.Perm c.cache) :
    WF cap { c with cache } where
  nodes := (hp.map Prod.fst).nodup_iff.2 h.nodes
  old n hn := h.old n (hp.subset hn)
  listed k v node hk := hp.symm.subset (h.listed k v node hk)
  held n hn := h.held n (hp.subset hn)
  room := by
    rw [hp.length_eq]
    exact h.room

/-- Using an entry keeps the shape. -/
theorem WF.touch (h : WF cap c) (k : κ) : WF cap (c.touch k) := by
  unfold Lru.touch
  split
  · exact h
  · split
    · exact h
    · exact h.reorder (splice_perm _ _)

theorem evict_cache (c : Lru κ ν cmp) : c.evict.cache = c.cache.tail := by
  unfold evict
  split
  · next hc => rw [hc, List.tail_nil]
  · next hc => rw [hc, List.tail_cons]

/-! ## The same keys on both sides -/

variable [LawfulEqCmp cmp]

/-- The map and the list have the same keys. -/
theorem WF.keys_perm (h : WF cap c) : (c.cache.map Prod.snd).Perm c.items.keys := by
  refine (List.perm_ext_iff_of_nodup h.keys_nodup ExtTreeMap.nodup_keys).2 ?_
  intro k
  rw [h.mem_keys, ExtTreeMap.mem_keys, ExtTreeMap.mem_iff_isSome_getElem?, Option.isSome_iff_exists]
  constructor
  · rintro ⟨v, hv⟩
    obtain ⟨node, hnode⟩ := find?_eq_some.1 hv
    exact ⟨_, hnode⟩
  · rintro ⟨⟨v, node⟩, hv⟩
    exact ⟨v, find?_eq_some.2 ⟨node, hv⟩⟩

theorem WF.size_eq (h : WF cap c) : c.items.size = c.cache.length := by
  rw [← ExtTreeMap.length_keys, ← h.keys_perm.length_eq, List.length_map]

/-! ## Taking out -/

/-- Both sides give up one pair of partners. -/
theorem WF.remove (h : WF cap c) {n : Nat × κ} (hn : n ∈ c.cache) {cache : List (Nat × κ)}
    (hsub : cache.Sublist c.cache) (hmem : ∀ m, m ∈ cache ↔ m ∈ c.cache ∧ m.1 ≠ n.1) :
    WF cap { c with items := c.items.erase n.2, cache } where
  nodes := h.nodes.sublist (hsub.map Prod.fst)
  old m hm := h.old m (hsub.subset hm)
  listed k v node hk := by
    by_cases he : k = n.2
    · rw [he, Std.ExtTreeMap.getElem?_erase_self] at hk
      cases hk
    · rw [getElem?_erase_ne he] at hk
      refine (hmem _).2 ⟨h.listed k v node hk, ?_⟩
      intro hnode
      -- a node belongs to one key only
      have hin := h.listed k v node hk
      have := List.inj_on_of_nodup_map h.nodes hin hn hnode
      exact he (congrArg Prod.snd this)
  held m hm := by
    obtain ⟨hin, hne⟩ := (hmem m).1 hm
    obtain ⟨v, hv⟩ := h.held m hin
    refine ⟨v, ?_⟩
    rw [getElem?_erase_ne]
    · exact hv
    · intro hk
      exact hne (congrArg Prod.fst (h.node_unique hin hn hk))
  room := Nat.le_trans hsub.length_le h.room

/-- Erasing keeps the shape. -/
theorem WF.erase (h : WF cap c) (k : κ) : WF cap (c.erase k) := by
  unfold Lru.erase
  split
  · exact h
  · next v node hk =>
    exact h.remove (h.listed k v node hk) List.filter_sublist fun _ => mem_unlink

omit [LawfulEqCmp cmp] in
theorem find?_erase_self (k : κ) : (c.erase k).find? k = none := by
  unfold Lru.erase
  split
  · next hk => exact find?_eq_none.2 hk
  · exact find?_eq_none.2 Std.ExtTreeMap.getElem?_erase_self

theorem find?_erase_ne {k k' : κ} (h : k' ≠ k) : (c.erase k).find? k' = c.find? k' := by
  unfold Lru.erase
  split
  · rfl
  · exact congrArg (Option.map Prod.fst) (getElem?_erase_ne h)

/-- Making room keeps the shape. -/
theorem WF.evict (h : WF cap c) : WF cap c.evict := by
  unfold Lru.evict
  split
  · exact h
  · next n rest hc =>
    have hnodes := h.nodes
    rw [hc, List.map_cons, List.nodup_cons] at hnodes
    refine h.remove (n := n) (hc ▸ List.mem_cons_self) (hc ▸ List.sublist_cons_self n rest) ?_
    intro m
    rw [hc, List.mem_cons]
    constructor
    · intro hm
      refine ⟨Or.inr hm, ?_⟩
      intro he
      exact hnodes.1 (he ▸ List.mem_map_of_mem hm)
    · rintro ⟨rfl | hm, hne⟩
      · exact absurd rfl hne
      · exact hm

/-- What is still there after an eviction was there before. -/
theorem find?_of_evict {k : κ} {v : ν} (h : c.evict.find? k = some v) : c.find? k = some v := by
  unfold Lru.evict at h
  split at h
  · exact h
  · next n rest hc =>
    by_cases he : k = n.2
    · rw [find?, he, Std.ExtTreeMap.getElem?_erase_self] at h
      cases h
    · rw [find?, getElem?_erase_ne he] at h
      exact h

/-! ## Putting in -/

omit [LawfulEqCmp cmp] in
/-- What was put in last is found. -/
theorem find?_put_self (cap : Nat) (k : κ) (v : ν) (c : Lru κ ν cmp) :
    (c.put cap k v).find? k = some v := by
  unfold put
  simp only
  split
  · exact find?_eq_some.2 ⟨_, Std.ExtTreeMap.getElem?_insert_self⟩
  · exact find?_eq_some.2 ⟨_, Std.ExtTreeMap.getElem?_insert_self⟩

/-- Storing a value brings in no other key. -/
theorem find?_of_put {k k' : κ} {v w : ν} (hne : k' ≠ k)
    (h : (c.put cap k v).find? k' = some w) : c.find? k' = some w := by
  have hroom : (if c.cache.length = cap then c.evict else c).find? k' = some w := by
    unfold put at h
    simp only at h
    split at h
    · rw [find?, getElem?_insert_ne hne] at h
      exact h
    · rw [find?, getElem?_insert_ne hne] at h
      exact h
  split at hroom
  · exact find?_of_evict hroom
  · exact hroom

/-- A stored value may be replaced in place. -/
theorem WF.replace (h : WF cap c) {k : κ} {v : ν} {node : Nat} (hk : c.items[k]? = some (v, node))
    (w : ν) : WF cap { c with items := c.items.insert k (w, node) } where
  nodes := h.nodes
  old := h.old
  listed k' v' node' hk' := by
    by_cases he : k' = k
    · rw [he, Std.ExtTreeMap.getElem?_insert_self] at hk'
      cases hk'
      rw [he]
      exact h.listed k v node hk
    · rw [getElem?_insert_ne he] at hk'
      exact h.listed k' v' node' hk'
  held n hn := by
    obtain ⟨v', hv'⟩ := h.held n hn
    by_cases he : n.2 = k
    · rw [he, hk] at hv'
      cases hv'
      exact ⟨w, by rw [he]; exact Std.ExtTreeMap.getElem?_insert_self⟩
    · exact ⟨v', by rw [getElem?_insert_ne he]; exact hv'⟩
  room := h.room

/-- A new key gets a new node at the end of the list. -/
theorem WF.append (h : WF cap c) {k : κ} (hk : c.items[k]? = none) (v : ν)
    (hroom : c.cache.length < cap) :
    WF cap { items := c.items.insert k (v, c.fresh), cache := c.cache ++ [(c.fresh, k)],
             fresh := c.fresh + 1 } where
  nodes := by
    rw [List.map_append, List.nodup_append]
    refine ⟨h.nodes, List.nodup_singleton _, ?_⟩
    intro a ha b hb
    obtain ⟨n, hn, rfl⟩ := List.mem_map.1 ha
    have hlt := h.old n hn
    rw [List.map_singleton, List.mem_singleton] at hb
    omega
  old n hn := by
    rcases List.mem_append.1 hn with hn | hn
    · exact Nat.lt_succ_of_lt (h.old n hn)
    · rw [List.mem_singleton.1 hn]
      exact Nat.lt_succ_self _
  listed k' v' node' hk' := by
    by_cases he : k' = k
    · rw [he, Std.ExtTreeMap.getElem?_insert_self] at hk'
      cases hk'
      rw [he]
      exact List.mem_append_right _ (List.mem_singleton.2 rfl)
    · rw [getElem?_insert_ne he] at hk'
      exact List.mem_append_left _ (h.listed k' v' node' hk')
  held n hn := by
    rcases List.mem_append.1 hn with hn | hn
    · obtain ⟨v', hv'⟩ := h.held n hn
      have he : n.2 ≠ k := by
        intro he
        rw [he, hk] at hv'
        cases hv'
      exact ⟨v', by rw [getElem?_insert_ne he]; exact hv'⟩
    · rw [List.mem_singleton.1 hn]
      exact ⟨v, Std.ExtTreeMap.getElem?_insert_self⟩
  room := by
    rw [List.length_append]
    exact hroom

/-- Putting something in keeps the shape and the bound. -/
theorem WF.put (h : WF cap c) (hcap : 0 < cap) (k : κ) (v : ν) : WF cap (c.put cap k v) := by
  have hmade : WF cap (if c.cache.length = cap then c.evict else c) ∧
      (if c.cache.length = cap then c.evict else c).cache.length < cap := by
    by_cases hfull : c.cache.length = cap
    · rw [if_pos hfull]
      refine ⟨h.evict, ?_⟩
      rw [evict_cache, List.length_tail]
      omega
    · rw [if_neg hfull]
      have := h.room
      exact ⟨h, by omega⟩
  unfold Lru.put
  simp only
  split
  · next hk => exact hmade.1.replace hk v
  · next hk => exact hmade.1.append hk v hmade.2

end Lru
