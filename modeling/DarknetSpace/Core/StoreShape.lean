import DarknetSpace.Core.BadBranch

/-!
# The shape of the store of alternative blocks

Every alternative block should hang on the main chain or on another alternative block,
one below it, and no block should be in both places (`StoreShape`). Then the walk back
along `prev_id` that `add_new_block` makes for a block beside the main chain ends on the
main chain (`StoreShape.walk`).

Keeping a block and extending the main chain keep the shape by small lemmas
(`StoreShape.insert`, `StoreShape.extend`). A reorganisation is one lemma too, about
what it comes to and not how it is done: `StoreShape.switched` takes the chain that went
onto the main chain off the store, and puts the old blocks from the split on into it.
-/

namespace DarknetSpace

open StateExn

/-! ## The shape -/

/-- The entry hangs on the main chain or on another entry, one above it. -/
def HasParent (index : List Hash) (alts : Map Hash BlockEntry) (e : BlockEntry) : Prop :=
  (∃ h, e.height = h + 1 ∧ index[h]? = some e.bl.prevId) ∨
    ∃ parent, alts[e.bl.prevId]? = some parent ∧ e.height = parent.height + 1

structure StoreShape (env : Env) (index : List Hash) (alts : Map Hash BlockEntry) : Prop where
  keys : ∀ (id : Hash) e, alts[id]? = some e → id = getBlockHash env e.bl
  linked : ∀ (id : Hash) e, alts[id]? = some e → HasParent index alts e
  disjoint : ∀ id ∈ index, alts[id]? = none

namespace StoreShape

variable {env : Env} {index : List Hash} {alts : Map Hash BlockEntry}

/-- Walking back along `prev_id` ends on the main chain, at the recorded height. -/
theorem walk (h : StoreShape env index alts) {id : Hash} {e : BlockEntry} (he : alts[id]? = some e) :
    ∃ fuel front rest, altChainTo alts fuel id = .ok (front :: rest) ∧
      ∃ k, front.2.height = k + 1 ∧ index[k]? = some front.2.bl.prevId := by
  -- the height falls on the way
  induction hk : e.height using Nat.strongRecOn generalizing id e with
  | ind k ih =>
    rcases h.linked id e he with ⟨j, hj, hmain⟩ | ⟨parent, hparent, hheight⟩
    · have hnone := h.disjoint _ (List.mem_of_getElem? hmain)
      refine ⟨2, (id, e), [], ?_, j, hj, hmain⟩
      unfold altChainTo
      rw [he]
      simp only
      unfold altChainTo
      rw [hnone]
      rfl
    · obtain ⟨fuel, front, rest, hway, hfront⟩ := ih parent.height (by omega) hparent rfl
      refine ⟨fuel + 1, front, rest ++ [(id, e)], ?_, hfront⟩
      unfold altChainTo
      rw [he]
      simp only
      rw [hway]
      rfl

/-- A new block on top of the main chain. -/
theorem extend (h : StoreShape env index alts) {id : Hash} (hid : alts[id]? = none) :
    StoreShape env (index ++ [id]) alts := by
  refine ⟨h.keys, fun id' e he => ?_, fun id' hid' => ?_⟩
  · rcases h.linked id' e he with ⟨k, hk, hmain⟩ | hparent
    · refine .inl ⟨k, hk, ?_⟩
      rw [List.getElem?_append_left (List.getElem?_eq_some_iff.1 hmain).1]
      exact hmain
    · exact .inr hparent
  · rcases List.mem_append.1 hid' with hid' | hid'
    · exact h.disjoint id' hid'
    · rw [List.mem_singleton.1 hid']
      exact hid

/-- A new alternative block. -/
theorem insert (h : StoreShape env index alts) {id : Hash} {e : BlockEntry}
    (hid : id = getBlockHash env e.bl) (hnew : alts[id]? = none) (hmain : id ∉ index)
    (hparent : HasParent index alts e) : StoreShape env index (alts.insert id e) := by
  have hne : ∀ (id' : Hash) e', alts[id']? = some e' → (alts.insert id e)[id']? = some e' := by
    intro id' e' he'
    rw [Std.ExtTreeMap.getElem?_insert, if_neg, he']
    intro hc
    rw [← Std.LawfulEqCmp.eq_of_compare hc, hnew] at he'
    cases he'
  have lift : ∀ e', HasParent index alts e' → HasParent index (alts.insert id e) e' := by
    intro e' hp
    rcases hp with hp | ⟨parent, hp, hheight⟩
    · exact .inl hp
    · exact .inr ⟨parent, hne _ _ hp, hheight⟩
  refine ⟨fun id' e' he' => ?_, fun id' e' he' => ?_, fun id' hid' => ?_⟩
  · rw [Std.ExtTreeMap.getElem?_insert] at he'
    split at he'
    · next hc =>
      cases he'
      rw [← Std.LawfulEqCmp.eq_of_compare hc]
      exact hid
    · exact h.keys id' e' he'
  · rw [Std.ExtTreeMap.getElem?_insert] at he'
    split at he'
    · cases he'
      exact lift _ hparent
    · exact lift _ (h.linked id' e' he')
  · rw [Std.ExtTreeMap.getElem?_insert, if_neg, h.disjoint id' hid']
    intro hc
    rw [Std.LawfulEqCmp.eq_of_compare hc] at hmain
    exact hmain hid'

/-- Taking entries out on which nothing that stays hangs. -/
theorem restrict (h : StoreShape env index alts) {alts' : Map Hash BlockEntry}
    (hsub : ∀ (id : Hash) e, alts'[id]? = some e → alts[id]? = some e)
    (hstay : ∀ (id : Hash) e parent, alts'[id]? = some e → alts[e.bl.prevId]? = some parent →
      alts'[e.bl.prevId]? = some parent) : StoreShape env index alts' := by
  refine ⟨fun id e he => h.keys id e (hsub id e he), fun id e he => ?_, fun id hid => ?_⟩
  · rcases h.linked id e (hsub id e he) with hmain | ⟨parent, hp, hheight⟩
    · exact .inl hmain
    · exact .inr ⟨parent, hstay id e parent he hp, hheight⟩
  · cases he : alts'[id]? with
    | none => rfl
    | some e =>
      have := (h.disjoint id hid).symm.trans (hsub id e he)
      cases this

end StoreShape

/-! ## A reorganisation, seen from the store -/

theorem getElem?_of_not_contains {alts : Map Hash BlockEntry} {id : Hash}
    (h : alts.contains id = false) : alts[id]? = none := by
  rw [Std.ExtTreeMap.contains_eq_isSome_getElem?] at h
  cases he : alts[id]? with
  | none => rfl
  | some e =>
    rw [he] at h
    cases h

theorem getElem?_eraseChain (chain : AltChain) (alts : Map Hash BlockEntry) (id : Hash) :
    (chain.foldl (fun m p => m.erase p.1) alts)[id]? =
      if id ∈ chain.map (·.1) then none else alts[id]? := by
  induction chain generalizing alts with
  | nil => rfl
  | cons p rest ih =>
    rw [List.foldl_cons, ih, Std.ExtTreeMap.getElem?_erase, List.map_cons]
    by_cases hrest : id ∈ rest.map (·.1)
    · rw [if_pos hrest, if_pos (List.mem_cons_of_mem _ hrest)]
    · rw [if_neg hrest]
      by_cases hid : id = p.1
      · rw [if_pos (Std.LawfulEqCmp.compare_eq_iff_eq.2 hid.symm), hid, if_pos List.mem_cons_self]
      · rw [if_neg, if_neg]
        · intro hmem
          rcases List.mem_cons.1 hmem with hmem | hmem
          · exact hid hmem
          · exact hrest hmem
        · intro hc
          exact hid (Std.LawfulEqCmp.eq_of_compare hc).symm

/-- The entry is that of the main-chain block at height `k`. -/
structure OldEntry (env : Env) (index : List Hash) (k : Nat) (id : Hash) (e : BlockEntry) : Prop where
  at_height : index[k]? = some id
  height : e.height = k
  key : id = getBlockHash env e.bl
  prev : index[k - 1]? = some e.bl.prevId

/-- The blocks of the main chain from `split` to below `upto` joined the store. -/
structure AsideUpTo (env : Env) (index : List Hash) (split upto : Nat)
    (alts alts' : Map Hash BlockEntry) : Prop where
  grew : ∀ (id : Hash) e, alts[id]? = some e → alts'[id]? = some e
  only : ∀ (id : Hash) e, alts'[id]? = some e →
    alts[id]? = some e ∨ ∃ k, split ≤ k ∧ OldEntry env index k id e
  all : ∀ k id, split ≤ k → k < upto → index[k]? = some id → ∃ e, alts'[id]? = some e ∧ e.height = k

/-- A chain of entries, one above the other from `split` on. -/
structure Stacked (alts : Map Hash BlockEntry) (split : Nat) (chain : AltChain) : Prop where
  kept : ∀ p ∈ chain, alts[p.1]? = some p.2
  height : ∀ i p, chain[i]? = some p → p.2.height = split + i

theorem StoreShape.switched {env : Env} {index : List Hash} {alts alts' : Map Hash BlockEntry}
    {split : Nat} {chain : AltChain} (h : StoreShape env index alts) (hnodup : index.Nodup)
    (hsplit : 1 ≤ split) (hlen : split ≤ index.length) (hchain : Stacked alts split chain)
    (haside : AsideUpTo env index split index.length alts alts') :
    StoreShape env (index.take split ++ chain.map (·.1))
      (chain.foldl (fun m p => m.erase p.1) alts') := by
  -- a main-chain block is not on the chain
  have hoff : ∀ id ∈ index, id ∉ chain.map (·.1) := by
    intro id hid hmem
    obtain ⟨p, hp, rfl⟩ := List.mem_map.1 hmem
    have := (h.disjoint p.1 hid).symm.trans (hchain.kept p hp)
    cases this
  have htake : ∀ k, k < split → (index.take split ++ chain.map (·.1))[k]? = index[k]? := by
    intro k hk
    rw [List.getElem?_append_left (by rw [List.length_take]; omega), List.getElem?_take_of_lt hk]
  -- an entry on the main-chain block at height `k` finds it in its new place
  have onMain : ∀ k id e, index[k]? = some id → e.bl.prevId = id → e.height = k + 1 →
      HasParent (index.take split ++ chain.map (·.1)) (chain.foldl (fun m p => m.erase p.1) alts') e := by
    intro k id e hk hprev hheight
    by_cases hks : k < split
    · refine .inl ⟨k, hheight, ?_⟩
      rw [htake k hks, hk, hprev]
    · obtain ⟨parent, hparent, hp⟩ :=
        haside.all k id (by omega) (List.getElem?_eq_some_iff.1 hk).1 hk
      refine .inr ⟨parent, ?_, by omega⟩
      rw [getElem?_eraseChain, if_neg, hprev, hparent]
      rw [hprev]
      exact hoff id (List.mem_of_getElem? hk)
  have gone : ∀ (id : Hash) e, (chain.foldl (fun m p => m.erase p.1) alts')[id]? = some e →
      id ∉ chain.map (·.1) ∧ alts'[id]? = some e := by
    intro id e he
    rw [getElem?_eraseChain] at he
    split at he
    · cases he
    · next hid => exact ⟨hid, he⟩
  refine ⟨fun id e he => ?_, fun id e he => ?_, fun id hid => ?_⟩
  · rcases haside.only id e (gone id e he).2 with ho | ⟨k, _, ho⟩
    · exact h.keys id e ho
    · exact ho.key
  · rcases haside.only id e (gone id e he).2 with ho | ⟨k, hk, ho⟩
    · rcases h.linked id e ho with ⟨k, hk, hmain⟩ | ⟨parent, hp, hheight⟩
      · exact onMain k _ e hmain rfl hk
      · by_cases hmem : e.bl.prevId ∈ chain.map (·.1)
        · -- the parent is on the main chain now
          obtain ⟨p, hpmem, hpid⟩ := List.mem_map.1 hmem
          obtain ⟨i, hi⟩ := List.getElem?_of_mem hpmem
          have hpe : p.2 = parent := by
            have hkept := hchain.kept p hpmem
            rw [hpid, hp] at hkept
            exact (Option.some.inj hkept).symm
          have hph := hchain.height i p hi
          rw [hpe] at hph
          refine .inl ⟨split + i, by omega, ?_⟩
          have htl : (index.take split).length = split := by rw [List.length_take]; omega
          rw [List.getElem?_append_right (by omega), htl, Nat.add_sub_cancel_left, List.getElem?_map,
            hi, ← hpid]
          rfl
        · refine .inr ⟨parent, ?_, hheight⟩
          rw [getElem?_eraseChain, if_neg hmem]
          exact haside.grew _ _ hp
    · exact onMain (k - 1) _ e ho.prev rfl (by have := ho.height; omega)
  · rw [getElem?_eraseChain]
    rcases List.mem_append.1 hid with hid | hid
    · rw [if_neg (hoff id (List.mem_of_mem_take hid))]
      cases he : alts'[id]? with
      | none => rfl
      | some e =>
        rcases haside.only id e he with ho | ⟨k, hk, ho⟩
        · have := (h.disjoint id (List.mem_of_mem_take hid)).symm.trans ho
          cases this
        · -- no block is twice on the main chain
          obtain ⟨j, hj⟩ := List.getElem?_of_mem hid
          have hjs : j < split := by
            have := (List.getElem?_eq_some_iff.1 hj).1
            rw [List.length_take] at this
            omega
          rw [List.getElem?_take_of_lt hjs] at hj
          obtain ⟨hjl, hje⟩ := List.getElem?_eq_some_iff.1 hj
          obtain ⟨hkl, hke⟩ := List.getElem?_eq_some_iff.1 ho.at_height
          have := (List.Nodup.getElem_inj_iff hnodup).1 (hje.trans hke.symm)
          omega
    · rw [if_pos hid]

/-! ## The chain of a new block -/

theorem altChainTo_last {alts : Map Hash BlockEntry} {fuel : Nat} {id : Hash} {chain : AltChain}
    (h : altChainTo alts fuel id = .ok chain) :
    (chain = [] ∧ alts[id]? = none) ∨
      ∃ below e fuel', chain = below ++ [(id, e)] ∧ alts[id]? = some e ∧
        altChainTo alts fuel' e.bl.prevId = .ok below := by
  cases fuel with
  | zero => cases h
  | succ fuel =>
    unfold altChainTo at h
    cases he : alts[id]? with
    | none =>
      rw [he] at h
      cases h
      exact .inl ⟨rfl, rfl⟩
    | some e =>
      rw [he] at h
      simp only at h
      cases hb : altChainTo alts fuel e.bl.prevId with
      | error x =>
        rw [hb] at h
        cases h
      | ok below =>
        rw [hb] at h
        cases h
        exact .inr ⟨below, e, fuel, rfl, rfl, hb⟩

/-- On a way back, every block names the one below it. -/
theorem altChainTo_prevId {alts : Map Hash BlockEntry} {fuel : Nat} {id : Hash} {chain : AltChain}
    (h : altChainTo alts fuel id = .ok chain) {i : Nat} {p q : Hash × BlockEntry}
    (hp : chain[i]? = some p) (hq : chain[i + 1]? = some q) : q.2.bl.prevId = p.1 := by
  obtain ⟨hkept, fuel', hway⟩ := altChainTo_below h hq
  have hlen := (List.getElem?_eq_some_iff.1 hq).1
  have htake : chain.take (i + 1 + 1) = chain.take (i + 1) ++ [q] := by
    rw [List.take_add_one, hq]
    rfl
  rw [htake] at hway
  rcases altChainTo_last hway with ⟨hnil, -⟩ | ⟨below, e, fuel'', hsplit, he, hbelow⟩
  · exact absurd hnil (by simp)
  · obtain ⟨hbelow', hqe⟩ := List.append_inj' hsplit rfl
    have hqe' : q.2 = e := congrArg Prod.snd (List.singleton_inj.1 hqe)
    -- the chain below ends in `p`
    rw [← hbelow', ← hqe'] at hbelow
    have hlast : (chain.take (i + 1)).getLast? = some p := by
      rw [List.getLast?_eq_getElem?, List.length_take, Nat.min_eq_left (by omega),
        Nat.add_sub_cancel, List.getElem?_take_of_lt (Nat.lt_succ_self i)]
      exact hp
    rcases altChainTo_last hbelow with ⟨hnil, -⟩ | ⟨below', e', _, hsplit', -, -⟩
    · rw [hnil] at hlast
      cases hlast
    · rw [hsplit', List.getLast?_concat] at hlast
      cases hlast
      rfl

/-- The entry of a joining block hangs where the shape wants it. -/
theorem Joins.hasParent {env : Env} {n : Node} {b : Block} {c : AltCandidate} {prev : Nat}
    (h : Joins env n b c prev) :
    HasParent n.chain.mBlocksIndex n.chain.mAlternativeChains (altBlockEntry b c prev) := by
  obtain ⟨split, hj⟩ := altCandidate_judged h.candidate
  have hheight : (altBlockEntry b c prev).height = c.height := rfl
  have hprev : (altBlockEntry b c prev).bl.prevId = b.prevId := rfl
  rcases altChainTo_last hj.chain with ⟨hnil, -⟩ | ⟨below, e, _, hsplit, he, -⟩
  · have hh := hj.hangs
    have hc := hj.height
    rw [hnil] at hh hc
    refine .inl ⟨split - 1, ?_, getElem?_of_indexHeight hh⟩
    have hpos := hj.split_pos
    rw [hheight, hc]
    show split = split - 1 + 1
    omega
  · refine .inr ⟨e, by rw [hprev]; exact he, ?_⟩
    rw [hheight, hj.height, hsplit, List.map_append, List.map_singleton, List.getLast?_concat]
    rfl

/-- In a store of the right shape, a chain of entries that name each other is
stacked up from its first one. -/
theorem StoreShape.stacked {env : Env} {index : List Hash} {alts : Map Hash BlockEntry}
    {chain : AltChain} (h : StoreShape env index alts) (hkept : ∀ p ∈ chain, alts[p.1]? = some p.2)
    (hprev : ∀ i p q, chain[i]? = some p → chain[i + 1]? = some q → q.2.bl.prevId = p.1) :
    Stacked alts (splitHeight chain) chain := by
  refine ⟨hkept, fun i => ?_⟩
  induction i with
  | zero =>
    intro p hp
    cases chain with
    | nil => cases hp
    | cons q rest =>
      cases hp
      rfl
  | succ i ih =>
    intro q hq
    have hlen := (List.getElem?_eq_some_iff.1 hq).1
    obtain ⟨p, hp⟩ : ∃ p, chain[i]? = some p := ⟨_, List.getElem?_eq_getElem (by omega)⟩
    have hpq := hprev i p q hp hq
    have hpe := hkept p (List.mem_of_getElem? hp)
    rcases h.linked q.1 q.2 (hkept q (List.mem_of_getElem? hq)) with
      ⟨k, -, hmain⟩ | ⟨parent, hparent, hheight⟩
    · have hnone := h.disjoint _ (List.mem_of_getElem? hmain)
      rw [hpq, hpe] at hnone
      cases hnone
    · rw [hpq, hpe] at hparent
      cases hparent
      have := ih p hp
      omega

end DarknetSpace
