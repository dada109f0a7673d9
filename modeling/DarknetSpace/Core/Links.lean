import DarknetSpace.Core.Sound

/-!
# The main chain as a chain

What every node's main chain is, whatever was pushed and popped: ids do not
repeat, every block knows its height, and every block names the one below it.

Both are facts about the list of blocks alone, so they are proved where blocks are added
and taken off and nowhere else: a push is over a header that names the top block and a
coinbase that claims the next height, and a pop gives back a list that had both before.
`WellNumbered` is the first, with ids that differ; the second is `MainLine`. Much that
follows about forks rests on them: an id is at one height only, and a block beside the
chain hangs on one place of it.
-/

namespace DarknetSpace

open StateExn

/-! ## Heights -/

theorem bl_of_forgetFlags {bs bs' : List BlockEntry} (h : forgetFlags bs' = forgetFlags bs) {i : Nat}
    {e : BlockEntry} (he : bs'[i]? = some e) : ∃ e₀, bs[i]? = some e₀ ∧ e₀.bl = e.bl := by
  have hi : (forgetFlags bs')[i]? = (forgetFlags bs)[i]? := by rw [h]
  rw [forgetFlags, forgetFlags, List.getElem?_map, List.getElem?_map, he] at hi
  obtain ⟨e₀, he₀, heq⟩ := Option.map_eq_some_iff.1 hi.symm
  refine ⟨e₀, he₀, ?_⟩
  have := congrArg BlockEntry.bl heq
  exact this

/-- Ids do not repeat, and every block knows its height. -/
structure WellNumbered (env : Env) (bs : List BlockEntry) : Prop where
  nodup : (blockIds env bs).Nodup
  height : ∀ (k : Nat) e, bs[k]? = some e → e.height = k

theorem WellNumbered.congr {env : Env} {bs bs' : List BlockEntry} (h : WellNumbered env bs)
    (hb : forgetFlags bs' = forgetFlags bs) : WellNumbered env bs' := by
  refine ⟨blockIds_congr hb ▸ h.nodup, fun k e he => ?_⟩
  have hk : (forgetFlags bs)[k]? = some e.forgetFlags := by
    rw [← hb, forgetFlags, List.getElem?_map, he]
    rfl
  rw [forgetFlags, List.getElem?_map] at hk
  obtain ⟨e₀, he₀, heq⟩ := Option.map_eq_some_iff.1 hk
  have hh : e.forgetFlags.height = e₀.forgetFlags.height := by rw [heq]
  exact hh.trans (h.height k e₀ he₀)

theorem WellNumbered.concat {env : Env} {bs : List BlockEntry} {e : BlockEntry}
    (h : WellNumbered env bs) (hid : getBlockHash env e.bl ∉ blockIds env bs)
    (he : e.height = bs.length) : WellNumbered env (bs ++ [e]) := by
  refine ⟨?_, fun k e' hk => ?_⟩
  · rw [blockIds, List.map_append, List.map_singleton, List.nodup_append]
    refine ⟨h.nodup, List.nodup_singleton _, fun a ha b hb heq => hid ?_⟩
    rw [← List.mem_singleton.1 hb, ← heq]
    exact ha
  · by_cases hlt : k < bs.length
    · rw [List.getElem?_append_left hlt] at hk
      exact h.height k e' hk
    · have hlen := (List.getElem?_eq_some_iff.1 hk).1
      rw [List.length_append, List.length_singleton] at hlen
      have hkl : k = bs.length := by omega
      rw [hkl, List.getElem?_concat_length] at hk
      cases hk
      rw [he, hkl]

theorem wellNumbered_invariant (env : Env) :
    BlocksInvariant env (fun _ => True) (WellNumbered env) := by
  refine ⟨fun bs bs' hb h => h.congr hb, fun {_ bl n n'} c hn h => ?_,
    fun bs e _ h => ⟨?_, fun k e' he => h.height k e' ?_⟩⟩
  · have hbase : WellNumbered env n.chain.mBlocks := by
      rcases h with h | h
      · rw [h]
        exact ⟨List.nodup_nil, fun k e he => by cases he⟩
      · exact h
    refine (hbase.congr c.forgetFlags_eq).concat ?_ rfl
    rw [blockIds_congr c.forgetFlags_eq, ← hn.index, ← c.index]
    exact c.fresh
  · have := h.nodup
    rw [blockIds, List.map_append] at this
    exact (List.nodup_append.1 this).1
  · rw [List.getElem?_append_left (List.getElem?_eq_some_iff.1 he).1]
    exact he

theorem Reachable.wellNumbered {env : Env} {n : Node} (hn : Reachable env n) :
    WellNumbered env n.chain.mBlocks ∧ n.chain.mBlocks ≠ [] :=
  ⟨((wellNumbered_invariant env).of_reachable (guaranteed_true env).admitted hn).2,
    (hn.sound (guaranteed_true env)).2⟩

/-! ## Links -/

/-- Every block names the one below it. -/
def Linked (env : Env) (bs : List BlockEntry) : Prop :=
  ∀ (i : Nat) e e', bs[i]? = some e → bs[i + 1]? = some e' → e'.bl.prevId = getBlockHash env e.bl

theorem Linked.congr {env : Env} {bs bs' : List BlockEntry} (h : Linked env bs)
    (hb : forgetFlags bs' = forgetFlags bs) : Linked env bs' := by
  intro i e e' he he'
  obtain ⟨e₀, he₀, hbl⟩ := bl_of_forgetFlags hb he
  obtain ⟨e₁, he₁, hbl'⟩ := bl_of_forgetFlags hb he'
  rw [← hbl, ← hbl']
  exact h i e₀ e₁ he₀ he₁

theorem Linked.concat {env : Env} {bs : List BlockEntry} {e : BlockEntry} (h : Linked env bs)
    (he : ∀ last, bs.getLast? = some last → e.bl.prevId = getBlockHash env last.bl) :
    Linked env (bs ++ [e]) := by
  intro i e₁ e₂ h₁ h₂
  have hlen := (List.getElem?_eq_some_iff.1 h₂).1
  rw [List.length_append, List.length_singleton] at hlen
  rw [List.getElem?_append_left (by omega)] at h₁
  by_cases hlt : i + 1 < bs.length
  · rw [List.getElem?_append_left hlt] at h₂
    exact h i e₁ e₂ h₁ h₂
  · have hi : i + 1 = bs.length := by omega
    rw [hi, List.getElem?_concat_length] at h₂
    cases h₂
    refine he e₁ ?_
    rw [List.getLast?_eq_getElem?, ← hi]
    exact h₁

/-- The block on top names the top. -/
theorem prevId_of_header {env : Env} {now : Nat} {s : Storage} {bl : Block}
    (h : checkBlockHeader env now s bl = none) : bl.prevId = s.getTopBlockId env := by
  unfold checkBlockHeader at h
  split at h
  · cases h
  · next heq => exact not_not.1 heq

theorem linked_invariant (env : Env) : BlocksInvariant env (fun _ => True) (Linked env) := by
  refine ⟨fun bs bs' hb h => h.congr hb, fun {_ bl n n'} c _ h => ?_, fun bs e _ h i e₁ e₂ h₁ h₂ => ?_⟩
  · have hbase : Linked env n.chain.mBlocks := by
      rcases h with h | h
      · rw [h]
        intro i e e' he
        cases he
      · exact h
    refine (hbase.congr c.forgetFlags_eq).concat fun last hlast => ?_
    have htop := prevId_of_header c.header
    rw [List.getLast?_eq_getElem?] at hlast
    obtain ⟨last₀, hlast₀, hbl⟩ := bl_of_forgetFlags c.forgetFlags_eq hlast
    rw [c.length] at hlast₀
    unfold Storage.getTopBlockId at htop
    rw [List.getLast?_eq_getElem?, hlast₀] at htop
    rw [← hbl]
    exact htop
  · have hlt₁ := (List.getElem?_eq_some_iff.1 h₁).1
    have hlt₂ := (List.getElem?_eq_some_iff.1 h₂).1
    exact h i e₁ e₂ (by rw [List.getElem?_append_left hlt₁]; exact h₁)
      (by rw [List.getElem?_append_left hlt₂]; exact h₂)

/-- Two properties at once. -/
theorem BlocksInvariant.and {env : Env} {G : TransactionPrefix → Prop}
    {A B : List BlockEntry → Prop} (hA : BlocksInvariant env G A) (hB : BlocksInvariant env G B) :
    BlocksInvariant env G fun bs => A bs ∧ B bs := by
  refine ⟨fun bs bs' hb h => ⟨hA.flags bs bs' hb h.1, hB.flags bs bs' hb h.2⟩, fun c hn h => ?_,
    fun bs e hne h => ⟨hA.pop bs e hne h.1, hB.pop bs e hne h.2⟩⟩
  rcases h with h | h
  · exact ⟨hA.push c hn (.inl h), hB.push c hn (.inl h)⟩
  · exact ⟨hA.push c hn (.inr h.1), hB.push c hn (.inr h.2)⟩

/-- A linked chain without repeated ids. -/
def MainLine (env : Env) (bs : List BlockEntry) : Prop := WellNumbered env bs ∧ Linked env bs

theorem mainLine_invariant (env : Env) : BlocksInvariant env (fun _ => True) (MainLine env) :=
  (wellNumbered_invariant env).and (linked_invariant env)

end DarknetSpace
