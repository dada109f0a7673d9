import DarknetSpace.Core.AltStore

/-!
# The heaviest chain

A switch that has connected the whole new chain is not yet through. Every block
it took off is handed back to `handle_alternative_block`, which judges it on the
new chain, and the first one that is refused takes the new chain down again. So
a heavier valid chain wins exactly when all the old blocks pass there: none
below a checkpoint the new chain has reached, none with a proof of work that
fails on the other scratchpad.

`Overtakes` compares the weights; then the switch is followed through its phases. What
comes before the old blocks are handed back can fail only at an alternative block that
is no good, which is a switch the rules do not want. What is left is the old blocks, one
by one on the new chain.

Main result: `heaviest_wins_iff`, for every reachable node, every block that overtakes,
and every depth.
-/

namespace DarknetSpace

open StateExn

/-- The blocks, one after another, pass the checks of an alternative block of
`m`, and none of them outweighs the main chain. -/
inductive PassesAside (env : Env) : List Block → Node → Prop
  | nil {m : Node} : PassesAside env [] m
  | cons {b : Block} {rest : List Block} {m : Node} {c : AltCandidate} {prev : Nat}
      (joins : Joins env m b c prev) (light : ¬ Overtakes m b c prev)
      (tail : PassesAside env rest (joined env m b c prev)) : PassesAside env (b :: rest) m

/-- The switch that `bl` sets off succeeds: `bl` is the top of the main chain,
and every block that was above the split is an alternative block. -/
def Wins (env : Env) (now depth : Nat) (n : Node) (bl : Block) (split : Nat) : Prop :=
  ∃ n', handleAlternativeBlock env now (depth + 1) bl (getBlockHash env bl) n = .ok .added n' ∧
    n'.chain.mBlocks.getLast?.map (·.bl) = some bl ∧
    ∀ e ∈ n.chain.mBlocks.drop split, ∃ e',
      n'.chain.mAlternativeChains[getBlockHash env e.bl]? = some e' ∧ e'.bl = e.bl

/-! ## One alternative block -/

section

variable {env : Env} {n : Node} {b : Block} {c : AltCandidate} {prev : Nat}

theorem eq_of_catchEntry {x : NodeM BlockVerdict} {n' : Node} {v : BlockVerdict}
    (h : catchEntry x n = .ok v n') : x n = .ok v n' ∨ v = .refused := by
  unfold catchEntry at h
  split at h
  · cases h
    exact .inr rfl
  · exact .inl h

/-- A block on top of a known one is turned away, or it joins. -/
theorem joins_of_true {switch : AltChain → NodeM Bool} {v : BlockVerdict} {n' : Node}
    (hknown : n.chain.mAlternativeChains[b.prevId]? ≠ none ∨
      indexHeight n.chain.mBlocksIndex b.prevId ≠ none)
    (h : alternativeBlock env switch b (getBlockHash env b) n = .ok v n') (hv : v.1 = true) :
    ∃ c prev, Joins env n b c prev := by
  -- an exit that says `false` is not the one that was taken
  have no : ∀ {w : BlockVerdict} {m : Node},
      (EStateM.Result.ok w m : EStateM.Result Exn Node BlockVerdict) = .ok v n' → w.1 ≠ false := by
    intro w m hw hno
    cases hw
    rw [hno] at hv
    cases hv
  unfold alternativeBlock at h
  rw [bind_of_ok (get_apply n)] at h
  split at h
  · exact absurd rfl (no h)
  · next hpassed =>
    rcases eq_of_catchEntry h with h | hrefused
    · unfold alternativeBlockBody at h
      cases hc : altCandidate env n.chain b with
      | error e =>
        rw [bind_of_error (readChain_of_error hc)] at h
        cases h
      | ok r =>
        rw [bind_of_ok (readChain_of_ok hc)] at h
        cases r with
        | inl w =>
          rcases altCandidate_answers hc with hno | ⟨-, hnone, hindex⟩
          · exact absurd hno (no h)
          · rcases hknown with hknown | hknown
            · exact absurd hnone hknown
            · exact absurd hindex hknown
        | inr c =>
          simp only [keepAlternativeBlock] at h
          rw [bind_of_ok (onChain_modify _ n), bind_of_ok (get_apply _)] at h
          split at h
          · exact absurd rfl (no h)
          · next hform =>
            cases hprev : altPrevDifficulty n.chain b c.altChain with
            | error e =>
              have hread : readChain (fun s => altPrevDifficulty s b c.altChain)
                  { n with chain := n.chain.setCheckpointZone c.height } =
                    .error e { n with chain := n.chain.setCheckpointZone c.height } :=
                readChain_of_error hprev
              rw [bind_of_error hread] at h
              cases h
            | ok prev =>
              have hread : readChain (fun s => altPrevDifficulty s b c.altChain)
                  { n with chain := n.chain.setCheckpointZone c.height } =
                    .ok prev { n with chain := n.chain.setCheckpointZone c.height } :=
                readChain_of_ok hprev
              rw [bind_of_ok hread] at h
              split at h
              · exact absurd rfl (no h)
              · next hnew =>
                exact ⟨c, prev, Bool.eq_false_iff.2 hpassed, hc, not_not.1 hform, hprev,
                  Bool.eq_false_iff.2 hnew⟩
    · rw [hrefused] at hv
      cases hv

theorem handleAlternativeBlock_eq (env : Env) (now depth : Nat) :
    ∃ switch, handleAlternativeBlock env now depth = alternativeBlock env switch := by
  cases depth with
  | zero => exact ⟨_, rfl⟩
  | succ depth => exact ⟨_, rfl⟩

/-- A block that joins and does not overtake is kept, at any depth. -/
theorem Joins.kept (h : Joins env n b c prev) (hlight : ¬ Overtakes n b c prev) (now depth : Nat) :
    handleAlternativeBlock env now depth b (getBlockHash env b) n =
      .ok .kept (joined env n b c prev) := by
  obtain ⟨switch, hswitch⟩ := handleAlternativeBlock_eq env now depth
  rw [hswitch]
  rcases alternativeBlock_cases env n b with ⟨r, ha, -⟩ | ⟨c', prev', hj, ⟨-, hr⟩ | ⟨hover, -⟩⟩
  · exact absurd h (ha.not_joins c prev)
  · obtain ⟨rfl, rfl⟩ := h.unique hj
    exact hr switch
  · obtain ⟨rfl, rfl⟩ := h.unique hj
    exact absurd hover hlight

/-- Joining adds one entry and loses none. -/
theorem Joins.grew (h : Joins env n b c prev) {id : Hash} {e : BlockEntry}
    (he : n.chain.mAlternativeChains[id]? = some e) :
    (joined env n b c prev).chain.mAlternativeChains[id]? = some e := by
  show (n.chain.mAlternativeChains.insert _ _)[id]? = some e
  rw [Std.ExtTreeMap.getElem?_insert, if_neg, he]
  intro hc
  have hnew := getElem?_of_not_contains h.new
  rw [Std.LawfulEqCmp.eq_of_compare hc, he] at hnew
  cases hnew

/-- The front of the chain of `b` hangs on a main-chain block that is not an
alternative one. -/
theorem Joins.base (h : Joins env n b c prev) (hn : Keyed env n) :
    ∃ front rest x, joinedChain env b c prev = front :: rest ∧ front.2.bl.prevId = x ∧
      n.chain.mBlocksIndex[splitHeight (joinedChain env b c prev) - 1]? = some x ∧
      n.chain.mAlternativeChains[x]? = none := by
  obtain ⟨split, hj⟩ := altCandidate_judged h.candidate
  have hway := hj.chain
  have hhangs := hj.hangs
  have hheight := hj.height
  cases hchain : c.altChain with
  | nil =>
    rw [hchain] at hway hhangs hheight
    have hc : c.height = split := hheight
    refine ⟨_, [], b.prevId, by rw [joinedChain, hchain]; rfl, rfl, ?_, ?_⟩
    · show n.chain.mBlocksIndex[splitHeight (c.altChain ++ _) - 1]? = _
      rw [hchain]
      show n.chain.mBlocksIndex[c.height - 1]? = _
      rw [hc]
      exact getElem?_of_indexHeight hhangs
    · rcases altChainTo_last hway with ⟨-, hnone⟩ | ⟨below, e, _, hnil, -, -⟩
      · exact hnone
      · exact absurd hnil (by simp)
  | cons p rest =>
    rw [hchain] at hway hhangs
    obtain ⟨hp, e, he, hid⟩ := hhangs
    refine ⟨p, rest ++ [(getBlockHash env b, altBlockEntry b c prev)], p.2.bl.prevId,
      by rw [joinedChain, hchain]; rfl, rfl, ?_, ?_⟩
    · show n.chain.mBlocksIndex[splitHeight (c.altChain ++ _) - 1]? = _
      rw [hchain]
      show n.chain.mBlocksIndex[p.2.height - 1]? = _
      rw [hp, hn.sound.index, blockIds, List.getElem?_map, he, ← hid]
      rfl
    · obtain ⟨hkept, fuel, hfront⟩ := altChainTo_below hway (i := 0) rfl
      rcases altChainTo_last hfront with ⟨hnil, -⟩ | ⟨below, e', fuel', hone, he', hbelow⟩
      · cases hnil
      · have hnil : below = [] := by
          have := congrArg List.length hone
          rw [List.length_append, List.length_singleton] at this
          exact List.length_eq_zero_iff.1 (by simpa using this.symm)
        rw [hkept] at he'
        cases he'
        rw [hnil] at hbelow
        rcases altChainTo_last hbelow with ⟨-, hnone⟩ | ⟨below', _, _, hnil', -, -⟩
        · exact hnone
        · exact absurd hnil' (by simp)

end

/-! ## What a switch does before it hands the old blocks back -/

section

variable {env : Env} {now : Nat}

theorem blocks_reconnected {bs : List Block} {n n' : Node} (hn : Sound env (fun _ => True) n)
    (h : reconnectBlocks env now bs n = .ok true n') :
    n'.chain.mBlocks.map (·.bl) = n.chain.mBlocks.map (·.bl) ++ bs := by
  induction bs generalizing n with
  | nil =>
    cases h
    exact (List.append_nil _).symm
  | cons b rest ih =>
    unfold reconnectBlocks at h
    obtain ⟨v, n₁, hpush, h⟩ := bind_eq_ok.1 h
    split at h
    · next hv =>
      rw [eq_added_of_accepted hpush hv] at hpush
      obtain ⟨c⟩ := handleBlockToMainChain_added hpush
      have hmap : n₁.chain.mBlocks.map (·.bl) = n.chain.mBlocks.map (·.bl) ++ [b] := by
        have := congrArg (List.map (·.bl)) (c.blocks_eq hn)
        rwa [map_bl_forgetFlags, map_bl_forgetFlags, List.map_append] at this
      rw [ih (c.sound hn) h, hmap, List.append_assoc, List.singleton_append]
    · cases h

theorem reconnected_of_connected {old : List Block} {height : Nat} {chain : AltChain} {n n' : Node}
    (h : connectAltChain env now old height chain n = .ok true n') :
    reconnectBlocks env now (chain.map (·.2.bl)) n = .ok true n' := by
  induction chain generalizing n with
  | nil => exact h
  | cons p rest ih =>
    unfold connectAltChain at h
    obtain ⟨v, m, hpush, h⟩ := bind_eq_ok.1 h
    rw [List.map_cons]
    unfold reconnectBlocks
    rw [bind_of_ok hpush]
    split at h
    · next hv =>
      rw [if_pos hv]
      exact ih h
    · obtain ⟨_, _, _, h⟩ := bind_eq_ok.1 h
      obtain ⟨_, _, _, h⟩ := bind_eq_ok.1 h
      obtain ⟨_, _, _, h⟩ := bind_eq_ok.1 h
      obtain ⟨_, _, _, h⟩ := bind_eq_ok.1 h
      cases h

/-- The three stages of a switch that succeeds. -/
theorem switch_true {pushOld : Block → Hash → NodeM BlockVerdict} {chain : AltChain} {n n' : Node}
    (h : switchToAlternativeBlockchain env now pushOld chain n = .ok true n') :
    ∃ old m₀ m m', disconnectBlocks env now (n.chain.mBlocks.length - splitHeight chain) n =
        .ok (some old) m₀ ∧
      reconnectBlocks env now (chain.map (·.2.bl)) m₀ = .ok true m ∧
      pushOldChain env pushOld old m = .ok true m' ∧
      n' = { m' with chain := eraseAltChain chain m'.chain } := by
  cases chain with
  | nil => cases h
  | cons p rest =>
    unfold switchToAlternativeBlockchain at h
    simp only at h
    rw [bind_of_ok (get_apply n)] at h
    split at h
    · cases h
    · obtain ⟨old, m₀, hpop, h⟩ := bind_eq_ok.1 h
      cases old with
      | none => cases h
      | some old =>
        obtain ⟨r, m, hconn, h⟩ := bind_eq_ok.1 h
        cases r with
        | false => cases h
        | true =>
          rw [if_neg (by simp)] at h
          obtain ⟨r, m', hpush, h⟩ := bind_eq_ok.1 h
          cases r with
          | false =>
            rw [if_pos (by simp)] at h
            obtain ⟨_, _, _, h⟩ := bind_eq_ok.1 h
            cases h
          | true =>
            rw [if_neg (by simp), bind_of_ok (onChain_modify _ m')] at h
            cases h
            exact ⟨old, m₀, m, m', hpop, reconnected_of_connected hconn, hpush, rfl⟩

/-- An alternative block that comes back added has gone through the switch. -/
theorem eq_true_of_caught {x : NodeM Bool} {n n' : Node} {v : BlockVerdict}
    (h : catchEntry (x >>= fun r => pure (if r then BlockVerdict.added else .failed)) n = .ok v n')
    (hv : v.1 = true) : x n = .ok true n' ∧ v = .added := by
  rcases eq_of_catchEntry h with h | hrefused
  · obtain ⟨r, m, hx, h⟩ := bind_eq_ok.1 h
    cases r with
    | false =>
      cases h
      cases hv
    | true =>
      cases h
      exact ⟨hx, rfl⟩
  · rw [hrefused] at hv
    cases hv

end

/-! ## The old blocks on the new chain -/

/-- The blocks of the old main chain `ids` from `split` to below `upto`, as
alternative blocks. The block below them is none. -/
structure Laid (ids : List Hash) (split upto : Nat) (alts : Map Hash BlockEntry) : Prop where
  base : ∀ x, ids[split - 1]? = some x → alts[x]? = none
  bottom : ∀ x e, split < upto → ids[split]? = some x → alts[x]? = some e → e.height = split
  laid : ∀ k x, split ≤ k → k < upto → ids[k]? = some x →
    ∃ e, alts[x]? = some e ∧ ids[k - 1]? = some e.bl.prevId

namespace Laid

variable {ids : List Hash} {split upto : Nat} {alts : Map Hash BlockEntry}

/-- The way back from each of them splits off where they did. -/
theorem front (h : Laid ids split upto alts) {k : Nat} (hk : split ≤ k) (hlt : k < upto) {x : Hash}
    (hx : ids[k]? = some x) {fuel : Nat} {chain : AltChain}
    (hway : altChainTo alts fuel x = .ok chain) :
    ∃ p rest, chain = p :: rest ∧ p.2.height = split := by
  induction k, hk using Nat.le_induction generalizing x fuel chain with
  | base =>
    obtain ⟨e, he, hprev⟩ := h.laid split x le_rfl hlt hx
    rcases altChainTo_last hway with ⟨-, hnone⟩ | ⟨below, e', fuel', hchain, he', hbelow⟩
    · rw [he] at hnone
      cases hnone
    · rw [he] at he'
      cases he'
      rcases altChainTo_last hbelow with ⟨hnil, -⟩ | ⟨_, e'', _, -, he'', -⟩
      · rw [hnil] at hchain
        exact ⟨_, [], hchain, h.bottom x e hlt hx he⟩
      · rw [h.base _ hprev] at he''
        cases he''
  | succ k hk ih =>
    obtain ⟨e, he, hprev⟩ := h.laid (k + 1) x (by omega) hlt hx
    rcases altChainTo_last hway with ⟨-, hnone⟩ | ⟨below, e', fuel', hchain, he', hbelow⟩
    · rw [he] at hnone
      cases hnone
    · rw [he] at he'
      cases he'
      obtain ⟨p, rest, hfront, hp⟩ := ih (by omega) hprev hbelow
      rw [hfront] at hchain
      exact ⟨p, rest ++ [(x, e)], hchain, hp⟩

/-- The next one joins. -/
theorem insert (h : Laid ids split upto alts) (hnodup : ids.Nodup) (hpos : 1 ≤ split)
    (hle : split ≤ upto) {id : Hash} {e : BlockEntry} (hid : ids[upto]? = some id)
    (hprev : ids[upto - 1]? = some e.bl.prevId) (hbottom : upto = split → e.height = split) :
    Laid ids split (upto + 1) (alts.insert id e) := by
  -- an id stands at one height only
  have other : ∀ k x, ids[k]? = some x → k ≠ upto → (alts.insert id e)[x]? = alts[x]? := by
    intro k x hx hne
    rw [Std.ExtTreeMap.getElem?_insert, if_neg]
    intro hc
    rw [← Std.LawfulEqCmp.eq_of_compare hc] at hx
    obtain ⟨hkl, hke⟩ := List.getElem?_eq_some_iff.1 hx
    obtain ⟨hul, hue⟩ := List.getElem?_eq_some_iff.1 hid
    exact hne ((List.Nodup.getElem_inj_iff hnodup).1 (hke.trans hue.symm))
  have self : (alts.insert id e)[id]? = some e := Std.ExtTreeMap.getElem?_insert_self
  refine ⟨fun x hx => ?_, fun x e' hlt hx he => ?_, fun k x hk hlt hx => ?_⟩
  · rw [other _ x hx (by omega)]
    exact h.base x hx
  · by_cases hu : upto = split
    · rw [← hu, hid] at hx
      cases hx
      rw [self] at he
      cases he
      exact hbottom hu
    · rw [other _ x hx (by omega)] at he
      exact h.bottom x e' (by omega) hx he
  · by_cases hku : k = upto
    · rw [hku, hid] at hx
      cases hx
      exact ⟨e, self, by rw [hku]; exact hprev⟩
    · rw [other _ x hx hku]
      exact h.laid k x hk (by omega) hx

end Laid

/-- The new chain is connected above `split`, and its blocks are still
alternative ones. -/
structure OnNewLine (env : Env) (ids : List Hash) (split : Nat) (m : Node) : Prop where
  keyed : Keyed env m
  below : ∀ k, k < split → m.chain.mBlocksIndex[k]? = ids[k]?
  first : ∃ e, m.chain.mBlocks[split]? = some e ∧
    m.chain.mAlternativeChains[getBlockHash env e.bl]? ≠ none ∧ ids[split - 1]? = some e.bl.prevId

namespace OnNewLine

variable {env : Env} {now : Nat} {ids : List Hash} {split upto : Nat} {m : Node} {b : Block}
  {c : AltCandidate} {prev : Nat}

theorem joined (h : OnNewLine env ids split m) (hj : Joins env m b c prev) :
    OnNewLine env ids split (joined env m b c prev) := by
  obtain ⟨e, he, hmem, hprev⟩ := h.first
  refine ⟨hj.keyed h.keyed, h.below, e, he, ?_, hprev⟩
  obtain ⟨e', he'⟩ := Option.ne_none_iff_exists'.1 hmem
  rw [hj.grew he']
  exact Option.some_ne_none _

/-- The lowest old block is alone on its chain. -/
theorem lowest (h : OnNewLine env ids split m) (hnodup : ids.Nodup) (hpos : 1 ≤ split)
    (hprev : ids[split - 1]? = some b.prevId) (hnone : m.chain.mAlternativeChains[b.prevId]? = none)
    (hj : Joins env m b c prev) : c.altChain = [] ∧ c.height = split := by
  obtain ⟨split', hjudged⟩ := altCandidate_judged hj.candidate
  have hhangs := hjudged.hangs
  have hheight := hjudged.height
  rcases altChainTo_last hjudged.chain with ⟨hnil, -⟩ | ⟨_, e, _, -, he, -⟩
  · rw [hnil] at hhangs hheight
    refine ⟨hnil, ?_⟩
    -- the first place of `prev_id` in the index is the place it had in the old one
    obtain ⟨hlt, hid, hfirst⟩ := List.idxOf?_eq_some_iff.1 hhangs
    obtain ⟨hlt', hid'⟩ := List.getElem?_eq_some_iff.1 ((h.below (split - 1) (by omega)).trans hprev)
    have hlow : split' - 1 ≤ split - 1 := by
      by_contra hc
      exact hfirst (split - 1) (by omega) hid'
    have hat : ids[split' - 1]? = some b.prevId := by
      rw [← h.below (split' - 1) (by omega), List.getElem?_eq_getElem hlt, hid]
    obtain ⟨hsl, hse⟩ := List.getElem?_eq_some_iff.1 hprev
    obtain ⟨htl, hte⟩ := List.getElem?_eq_some_iff.1 hat
    have heq := (List.Nodup.getElem_inj_iff hnodup).1 (hte.trans hse.symm)
    have hpos' := hjudged.split_pos
    have hc : c.height = split' := hheight
    omega
  · rw [hnone] at he
    cases he

/-- An old block that joins has the chain of the old blocks below it. -/
theorem splitHeight_eq (h : OnNewLine env ids split m) (hnodup : ids.Nodup) (hpos : 1 ≤ split)
    (hlaid : Laid ids split upto m.chain.mAlternativeChains) (hle : split ≤ upto)
    (hprev : ids[upto - 1]? = some b.prevId) (hj : Joins env m b c prev) :
    splitHeight (joinedChain env b c prev) = split := by
  by_cases hu : upto = split
  · rw [hu] at hprev
    obtain ⟨hnil, hheight⟩ := h.lowest hnodup hpos hprev (hlaid.base _ hprev) hj
    rw [joinedChain, hnil]
    exact hheight
  · obtain ⟨split', hjudged⟩ := altCandidate_judged hj.candidate
    obtain ⟨p, rest, hchain, hp⟩ :=
      hlaid.front (by omega) (by omega) hprev hjudged.chain
    rw [joinedChain, hchain]
    exact hp

/-- A switch from here never succeeds: the first block it would hand back is an
alternative block already. -/
theorem not_switched (h : OnNewLine env ids split m) (hpos : 1 ≤ split) {chain : AltChain}
    (hsplit : splitHeight chain = split) (depth : Nat) (m' : Node) :
    switchToAlternativeBlockchain env now (handleAlternativeBlock env now depth) chain m ≠
      .ok true m' := by
  intro hswitch
  obtain ⟨old, m₀, m₁, m₂, hpop, hconn, hpush, -⟩ := switch_true hswitch
  obtain ⟨e, he, hmem, hprev⟩ := h.first
  have hlt := (List.getElem?_eq_some_iff.1 he).1
  rw [hsplit] at hpop
  -- the store is the same when the old blocks come back
  have hinv := sideIs_invariant env m.chain.mAlternativeChains m.chain.mInvalidBlocks
  have hs₀ := hinv.keeps_disconnectBlocks now (m.chain.mBlocks.length - split) m
    ⟨h.keyed.sound, rfl, rfl⟩
  rw [hpop, stateOf_ok] at hs₀
  have hs₁ := hinv.keeps_reconnectBlocks now (chain.map (·.2.bl)) m₀ hs₀
  rw [hconn, stateOf_ok] at hs₁
  obtain ⟨-, hidx₀, -⟩ := index_disconnected h.keyed.sound hpop
  obtain ⟨-, hidx₁⟩ := index_reconnected hs₀.sound hconn
  obtain ⟨-, -, -, hold⟩ := disconnectBlocks_some h.keyed.sound hpop
  rw [Nat.sub_sub_self (Nat.le_of_lt hlt)] at hidx₀ hold
  rw [List.drop_eq_getElem_cons hlt, (List.getElem?_eq_some_iff.1 he).2, List.map_cons] at hold
  rw [hold] at hpush
  unfold pushOldChain at hpush
  obtain ⟨v, m₃, hback, hpush⟩ := bind_eq_ok.1 hpush
  split at hpush
  · next hv =>
    have hmain : m₁.chain.mBlocksIndex[split - 1]? = some e.bl.prevId := by
      have hlow := (h.below (split - 1) (by omega)).trans hprev
      have hlen := (List.getElem?_eq_some_iff.1 hlow).1
      rw [hidx₁, hidx₀, List.getElem?_append_left (by rw [List.length_take]; omega),
        List.getElem?_take_of_lt (by omega)]
      exact hlow
    have hknown : indexHeight m₁.chain.mBlocksIndex e.bl.prevId ≠ none := by
      intro hnone
      exact List.idxOf?_eq_none_iff.1 hnone (List.mem_of_getElem? hmain)
    obtain ⟨switch, hdef⟩ := handleAlternativeBlock_eq env now depth
    rw [hdef] at hback
    obtain ⟨c, prev, hj⟩ := joins_of_true (.inr hknown) hback hv
    have hnew := getElem?_of_not_contains hj.new
    rw [hs₁.alts] at hnew
    exact hmem hnew
  · cases hpush

/-- The old blocks that all come back with `true` have joined beside the new
chain. -/
theorem passesAside (h : OnNewLine env ids split m) (hnodup : ids.Nodup) (hpos : 1 ≤ split)
    (hlaid : Laid ids split upto m.chain.mAlternativeChains) (hle : split ≤ upto) {rest : List Block}
    (hold : ∀ i b, rest[i]? = some b →
      ids[upto + i]? = some (getBlockHash env b) ∧ ids[upto + i - 1]? = some b.prevId)
    {depth : Nat} {m' : Node}
    (hpush : pushOldChain env (handleAlternativeBlock env now depth) rest m = .ok true m') :
    PassesAside env rest m := by
  induction rest generalizing m upto with
  | nil => exact .nil
  | cons b rest ih =>
    obtain ⟨hid, hprev⟩ := hold 0 b rfl
    unfold pushOldChain at hpush
    obtain ⟨v, m₁, hb, hpush⟩ := bind_eq_ok.1 hpush
    split at hpush
    · next hv =>
      -- the parent of the first old block is on the main chain, that of another was laid aside
      -- before it
      have hknown : m.chain.mAlternativeChains[b.prevId]? ≠ none ∨
          indexHeight m.chain.mBlocksIndex b.prevId ≠ none := by
        by_cases hu : upto = split
        · right
          intro hnone
          rw [hu] at hprev
          have hmain := (h.below (split - 1) (by omega)).trans hprev
          exact List.idxOf?_eq_none_iff.1 hnone (List.mem_of_getElem? hmain)
        · left
          obtain ⟨e, he, -⟩ := hlaid.laid (upto - 1) b.prevId (by omega) (by omega) hprev
          rw [he]
          exact Option.some_ne_none _
      obtain ⟨switch, hdef⟩ := handleAlternativeBlock_eq env now depth
      obtain ⟨c, prev, hj⟩ := joins_of_true hknown (hdef ▸ hb) hv
      have hsplit := h.splitHeight_eq hnodup hpos hlaid hle hprev hj
      by_cases hover : Overtakes m b c prev
      · -- an old block that overtakes is refused as well
        exfalso
        cases depth with
        | zero =>
          unfold handleAlternativeBlock at hb
          rw [hj.switches hover] at hb
          cases hb
        | succ depth =>
          unfold handleAlternativeBlock at hb
          rw [hj.switches hover] at hb
          exact (h.joined hj).not_switched hpos hsplit depth _ (eq_true_of_caught hb hv).1
      · rw [hj.kept hover] at hb
        cases hb
        refine .cons hj hover (ih (h.joined hj) ?_ (Nat.le_succ_of_le hle) (fun i b' hb' => ?_) hpush)
        · refine hlaid.insert hnodup hpos hle hid hprev fun hu => ?_
          have hlow : ids[split - 1]? = some b.prevId := hu ▸ hprev
          exact (h.lowest hnodup hpos hlow (hlaid.base _ hlow) hj).2
        · have := hold (i + 1) b' hb'
          rwa [show upto + (i + 1) = upto + 1 + i by omega] at this
    · cases hpush

end OnNewLine

/-! ## The whole switch -/

section

variable {env : Env} {now : Nat} {n : Node} {bl : Block} {c : AltCandidate} {prev : Nat}
  {old : List Block} {m : Node}

/-- The node on the new chain. -/
theorem Connects.onNewLine (h : Connects env now n bl c prev old m) (hn : Keyed env n) :
    OnNewLine env n.chain.mBlocksIndex (splitHeight (joinedChain env bl c prev)) m := by
  obtain ⟨hside, hidx, -, -⟩ := h.facts hn
  obtain ⟨-, hlt⟩ := h.joins.split_bounds
  obtain ⟨front, rest, x, hchain, hprev, hx, -⟩ := h.joins.base hn
  have hhanded := h.joins.handed hn
  have hmem : front ∈ joinedChain env bl c prev := by
    rw [hchain]
    exact List.mem_cons_self
  have hlen := hn.sound.sync
  have hkeyed := h.joins.keyed hn
  refine ⟨⟨hside.sound, fun id e he => hkeyed.keys id e (hside.alts ▸ he)⟩, fun k hk => ?_, ?_⟩
  · rw [hidx, List.getElem?_append_left (by rw [List.length_take]; omega),
      List.getElem?_take_of_lt hk]
  · -- the block above the split is the front of the chain
    obtain ⟨m₀, hpop, hpush⟩ := h.connects
    obtain ⟨hm₀, -, hblocks, -⟩ := disconnectBlocks_some hkeyed.sound hpop
    have hlen₀ : m₀.chain.mBlocks.length = splitHeight (joinedChain env bl c prev) := by
      have := congrArg List.length hblocks
      rw [length_forgetFlags, List.length_take, length_forgetFlags] at this
      have hsame : (joined env n bl c prev).chain.mBlocks.length = n.chain.mBlocks.length := rfl
      omega
    have hfront : ((joinedChain env bl c prev).map (·.2.bl))[0]? = some front.2.bl := by
      rw [hchain]
      rfl
    have hmap := congrArg (·[splitHeight (joinedChain env bl c prev)]?) (blocks_reconnected hm₀ hpush)
    simp only [List.getElem?_map] at hmap
    rw [List.getElem?_append_right (by rw [List.length_map]; omega), List.length_map, hlen₀,
      Nat.sub_self, hfront] at hmap
    obtain ⟨e, he, hbl⟩ := Option.map_eq_some_iff.1 hmap
    refine ⟨e, he, ?_, ?_⟩
    · rw [hbl, ← hhanded.ids front hmem, hside.alts]
      intro hnone
      have := hnone.symm.trans (hhanded.kept front hmem)
      cases this
    · rw [hbl, hprev]
      exact hx

/-- None of the old blocks is laid aside yet. -/
theorem Connects.laid (h : Connects env now n bl c prev old m) (hn : Keyed env n)
    (hnew : n.chain.haveBlock (getBlockHash env bl) = false) :
    Laid n.chain.mBlocksIndex (splitHeight (joinedChain env bl c prev))
      (splitHeight (joinedChain env bl c prev)) m.chain.mAlternativeChains := by
  obtain ⟨hside, -, -, -⟩ := h.facts hn
  obtain ⟨front, rest, x, -, -, hx, hnone⟩ := h.joins.base hn
  unfold Storage.haveBlock at hnew
  rw [Bool.or_eq_false_iff, Bool.or_eq_false_iff, decide_eq_false_iff_not] at hnew
  refine ⟨fun y hy => ?_, fun _ _ hlt => absurd hlt (lt_irrefl _), fun k x hk hlt => by omega⟩
  rw [hx] at hy
  cases hy
  rw [hside.alts]
  show (n.chain.mAlternativeChains.insert _ _)[x]? = none
  rw [Std.ExtTreeMap.getElem?_insert, if_neg, hnone]
  intro hc
  rw [Std.LawfulEqCmp.eq_of_compare hc] at hnew
  exact hnew.1.1 (List.mem_of_getElem? hx)

/-- The old blocks as alternative blocks of `m'`. -/
structure Aside (env : Env) (old : List Block) (m m' : Node) : Prop where
  blocks : m'.chain.mBlocks = m.chain.mBlocks
  grew : ∀ (id : Hash) e, m.chain.mAlternativeChains[id]? = some e →
    m'.chain.mAlternativeChains[id]? = some e
  new : ∀ b ∈ old, m.chain.mAlternativeChains[getBlockHash env b]? = none
  kept : ∀ b ∈ old, ∃ e, m'.chain.mAlternativeChains[getBlockHash env b]? = some e ∧ e.bl = b

/-- Blocks that pass come back with `true`. -/
theorem PassesAside.pushed (h : PassesAside env old m) (now : Nat) :
    ∃ m', Aside env old m m' ∧
      ∀ depth, pushOldChain env (handleAlternativeBlock env now depth) old m = .ok true m' := by
  induction h with
  | @nil m =>
    exact ⟨m, ⟨rfl, fun _ _ he => he, (fun b hb => by cases hb), (fun b hb => by cases hb)⟩,
      fun depth => rfl⟩
  | @cons b rest m c prev hj hlight _ ih =>
    obtain ⟨m', haside, hpush⟩ := ih
    have hnew := getElem?_of_not_contains hj.new
    have hself : (joined env m b c prev).chain.mAlternativeChains[getBlockHash env b]? =
        some (altBlockEntry b c prev) := Std.ExtTreeMap.getElem?_insert_self
    refine ⟨m', ⟨haside.blocks, fun id e he => haside.grew id e (hj.grew he), fun b' hb' => ?_,
      fun b' hb' => ?_⟩, fun depth => ?_⟩
    · rcases List.mem_cons.1 hb' with rfl | hb'
      · exact hnew
      · cases he : m.chain.mAlternativeChains[getBlockHash env b']? with
        | none => rfl
        | some e =>
          have := (haside.new b' hb').symm.trans (hj.grew he)
          cases this
    · rcases List.mem_cons.1 hb' with rfl | hb'
      · exact ⟨_, haside.grew _ _ hself, rfl⟩
      · exact haside.kept b' hb'
    · unfold pushOldChain
      rw [bind_of_ok (hj.kept hlight now depth)]
      exact hpush depth

/-- No block passes below a checkpoint that the main chain has reached. -/
theorem PassesAside.not_passed (h : PassesAside env old m) :
    ∀ b ∈ old, m.chain.mCheckpoints.isHeightPassedZone (getBlockHeight b).toNat
      (m.chain.getCurrentBlockchainHeight - 1) = false := by
  induction h with
  | nil =>
    intro b hb
    cases hb
  | cons hj _ _ ih =>
    intro b' hb'
    rcases List.mem_cons.1 hb' with rfl | hb'
    · exact hj.passed
    · exact ih b' hb'

/-- A switch that succeeds has laid all the old blocks aside. -/
theorem Connects.passesAside (h : Connects env now n bl c prev old m) (hn : Keyed env n)
    (hline : MainLine env n.chain.mBlocks)
    (hnew : n.chain.haveBlock (getBlockHash env bl) = false) {depth : Nat} {n' : Node}
    (hadded : handleAlternativeBlock env now (depth + 1) bl (getBlockHash env bl) n =
      .ok .added n') : PassesAside env old m := by
  unfold handleAlternativeBlock at hadded
  rw [h.joins.switches h.overtakes] at hadded
  obtain ⟨old', m₀', m'', m', hpop', hpush', hback, -⟩ := switch_true (eq_true_of_caught hadded rfl).1
  obtain ⟨m₀, hpop, hpush⟩ := h.connects
  have hsame := hpop.symm.trans hpop'
  cases hsame
  have hsame := hpush.symm.trans hpush'
  cases hsame
  have hnodup : n.chain.mBlocksIndex.Nodup := hn.sound.index ▸ hline.1.nodup
  exact (h.onNewLine hn).passesAside hnodup h.joins.split_bounds.1 (h.laid hn hnew) le_rfl
    (h.old_at hn hline) hback

/-- And when all the old blocks pass, it succeeds. -/
theorem Connects.wins (h : Connects env now n bl c prev old m) (hn : Keyed env n)
    (hpass : PassesAside env old m) (depth : Nat) :
    Wins env now depth n bl (splitHeight (joinedChain env bl c prev)) := by
  obtain ⟨hside, -, -, hold⟩ := h.facts hn
  obtain ⟨m', haside, hpush⟩ := hpass.pushed now
  have hhanded := h.joins.handed hn
  have hswitch : switchToAlternativeBlockchain env now (handleAlternativeBlock env now depth)
      (joinedChain env bl c prev) (joined env n bl c prev) =
        .ok true { m' with chain := eraseAltChain (joinedChain env bl c prev) m'.chain } := by
    rw [h.switch_eq]
    exact bind_of_ok (hpush depth)
  refine ⟨{ m' with chain := eraseAltChain (joinedChain env bl c prev) m'.chain }, ?_, ?_,
    fun e he => ?_⟩
  · unfold handleAlternativeBlock
    rw [h.joins.switches h.overtakes]
    unfold catchEntry
    rw [bind_of_ok hswitch]
    rfl
  · obtain ⟨m₀, hpop, hconn⟩ := h.connects
    obtain ⟨hm₀, -⟩ := disconnectBlocks_some (h.joins.keyed hn).sound hpop
    show m'.chain.mBlocks.getLast?.map (·.bl) = some bl
    rw [haside.blocks, ← List.getLast?_map, blocks_reconnected hm₀ hconn, joinedChain,
      List.map_append, ← List.append_assoc]
    exact List.getLast?_concat
  · have hmem : e.bl ∈ old := by
      rw [hold]
      exact List.mem_map_of_mem he
    obtain ⟨e', he', hbl⟩ := haside.kept e.bl hmem
    refine ⟨e', ?_, hbl⟩
    show (eraseAltChain _ m'.chain).mAlternativeChains[_]? = some e'
    unfold eraseAltChain
    rw [getElem?_eraseChain, if_neg, he']
    intro hon
    obtain ⟨p, hp, hpid⟩ := List.mem_map.1 hon
    have hkept := hhanded.kept p hp
    rw [hpid, ← hside.alts, haside.new e.bl hmem] at hkept
    cases hkept

/-- An old block below a checkpoint that the new chain has reached takes the new
chain down, whatever it weighs. -/
theorem Connects.not_wins_of_passed (h : Connects env now n bl c prev old m) (hn : Keyed env n)
    (hline : MainLine env n.chain.mBlocks)
    (hnew : n.chain.haveBlock (getBlockHash env bl) = false) {b : Block} (hb : b ∈ old)
    (hpassed : m.chain.mCheckpoints.isHeightPassedZone (getBlockHeight b).toNat
      (m.chain.getCurrentBlockchainHeight - 1) = true) (depth : Nat) :
    ¬ Wins env now depth n bl (splitHeight (joinedChain env bl c prev)) := by
  intro hwins
  obtain ⟨n', hadded, -⟩ := hwins
  have hno := (h.passesAside hn hline hnew hadded).not_passed b hb
  rw [hpassed] at hno
  cases hno

end

/-- **The heaviest chain.** A new block overtakes, the main chain comes off down
to the split, and every block of the chain is added in turn. Then the switch
succeeds exactly when all the old blocks pass as alternative blocks on the new
chain. -/
theorem heaviest_wins_iff {env : Env} {now : Nat} {n : Node} {bl : Block} {c : AltCandidate}
    {prev : Nat} {old : List Block} {m : Node} (hn : Reachable env n)
    (hnew : n.chain.haveBlock (getBlockHash env bl) = false)
    (h : Connects env now n bl c prev old m) (depth : Nat) :
    Wins env now depth n bl (splitHeight (joinedChain env bl c prev)) ↔ PassesAside env old m := by
  have hline := ((mainLine_invariant env).of_reachable (guaranteed_true env).admitted hn).2
  constructor
  · intro hwins
    obtain ⟨n', hadded, -⟩ := hwins
    exact h.passesAside hn.keyed hline hnew hadded
  · exact fun hpass => h.wins hn.keyed hpass depth

namespace Devnet

/-- One block of the main line and one beside it, under some checkpoints. -/
def beside (checkpoints : Checkpoints) : Node :=
  node checkpoints [.newBlock (mainBlock 1), .newBlock (altBlock 1 0)]

/-- The second block of the other line has its chain connected. -/
def onOther (checkpoints : Checkpoints) (x : AltCandidate × Nat) : Node :=
  stateOf (pushed (beside checkpoints) (altBlock 2 101) x)

/-- The other line is fixed at its second block. -/
def otherFixed : Checkpoints := (∅ : Checkpoints).insert 2 (getBlockHash env (altBlock 2 101))

theorem connects_beside {checkpoints : Checkpoints} {x : AltCandidate × Nat}
    (hx : joining (beside checkpoints) (altBlock 2 101) = some x)
    (hover : Overtakes (beside checkpoints) (altBlock 2 101) x.1 x.2)
    (hpop : returned (popped (beside checkpoints) (altBlock 2 101) x) = some (some [mainBlock 1]))
    (hpush : returned (pushed (beside checkpoints) (altBlock 2 101) x) = some true) :
    Connects env now (beside checkpoints) (altBlock 2 101) x.1 x.2 [mainBlock 1]
      (onOther checkpoints x) :=
  ⟨joins_of_joining hx, hover, _, eq_returned hpop, eq_returned hpush⟩

end Devnet

/-- Without a checkpoint the old block passes, and the other line wins. -/
theorem heaviest_wins_devnet :
    ∃ n c prev m, Reachable Devnet.env n ∧
      Connects Devnet.env Devnet.now n (Devnet.altBlock 2 101) c prev [Devnet.mainBlock 1] m ∧
      Wins Devnet.env Devnet.now 0 n (Devnet.altBlock 2 101)
        (splitHeight (joinedChain Devnet.env (Devnet.altBlock 2 101) c prev)) := by
  have eval : (Devnet.run ∅ [.newBlock (Devnet.mainBlock 1),
        .newBlock (Devnet.altBlock 1 0)]).isSome = true ∧
      (Devnet.beside ∅).chain.haveBlock (getBlockHash Devnet.env (Devnet.altBlock 2 101)) = false ∧
      ∃ x ∈ Devnet.joining (Devnet.beside ∅) (Devnet.altBlock 2 101),
        Overtakes (Devnet.beside ∅) (Devnet.altBlock 2 101) x.1 x.2 ∧
        returned (Devnet.popped (Devnet.beside ∅) (Devnet.altBlock 2 101) x) =
          some (some [Devnet.mainBlock 1]) ∧
        returned (Devnet.pushed (Devnet.beside ∅) (Devnet.altBlock 2 101) x) = some true ∧
        ∃ y ∈ Devnet.joining (Devnet.onOther ∅ x) (Devnet.mainBlock 1),
          ¬ Overtakes (Devnet.onOther ∅ x) (Devnet.mainBlock 1) y.1 y.2 := by
    decide +kernel
  obtain ⟨hrun, hnew, x, hx, hover, hpop, hpush, y, hy, hlight⟩ := eval
  have hn : Reachable Devnet.env (Devnet.beside ∅) := Devnet.reachable_node ∅ _ hrun
  have hconn := Devnet.connects_beside hx hover hpop hpush
  exact ⟨_, _, _, _, hn, hconn, (heaviest_wins_iff hn hnew hconn 0).2
    (.cons (Devnet.joins_of_joining hy) hlight .nil)⟩

/-- Under a checkpoint that the heavier line satisfies, and reaches, it does not
win. -/
theorem heaviest_turned_back :
    ∃ n c prev m, Reachable Devnet.env n ∧
      n.chain.haveBlock (getBlockHash Devnet.env (Devnet.altBlock 2 101)) = false ∧
      Connects Devnet.env Devnet.now n (Devnet.altBlock 2 101) c prev [Devnet.mainBlock 1] m ∧
      (∀ e ∈ m.chain.mBlocks, n.chain.mCheckpoints.checkBlock e.height
        (getBlockHash Devnet.env e.bl) = true) ∧
      ∀ depth, ¬ Wins Devnet.env Devnet.now depth n (Devnet.altBlock 2 101)
        (splitHeight (joinedChain Devnet.env (Devnet.altBlock 2 101) c prev)) := by
  have eval : (Devnet.run Devnet.otherFixed [.newBlock (Devnet.mainBlock 1),
        .newBlock (Devnet.altBlock 1 0)]).isSome = true ∧
      (Devnet.beside Devnet.otherFixed).chain.haveBlock
        (getBlockHash Devnet.env (Devnet.altBlock 2 101)) = false ∧
      ∃ x ∈ Devnet.joining (Devnet.beside Devnet.otherFixed) (Devnet.altBlock 2 101),
        Overtakes (Devnet.beside Devnet.otherFixed) (Devnet.altBlock 2 101) x.1 x.2 ∧
        returned (Devnet.popped (Devnet.beside Devnet.otherFixed) (Devnet.altBlock 2 101) x) =
          some (some [Devnet.mainBlock 1]) ∧
        returned (Devnet.pushed (Devnet.beside Devnet.otherFixed) (Devnet.altBlock 2 101) x) =
          some true ∧
        (∀ e ∈ (Devnet.onOther Devnet.otherFixed x).chain.mBlocks,
          (Devnet.beside Devnet.otherFixed).chain.mCheckpoints.checkBlock e.height
            (getBlockHash Devnet.env e.bl) = true) ∧
        (Devnet.onOther Devnet.otherFixed x).chain.mCheckpoints.isHeightPassedZone
          (getBlockHeight (Devnet.mainBlock 1)).toNat
          ((Devnet.onOther Devnet.otherFixed x).chain.getCurrentBlockchainHeight - 1) = true := by
    decide +kernel
  obtain ⟨hrun, hnew, x, hx, hover, hpop, hpush, hfixed, hpassed⟩ := eval
  have hn : Reachable Devnet.env (Devnet.beside Devnet.otherFixed) :=
    Devnet.reachable_node Devnet.otherFixed _ hrun
  have hline :=
    ((mainLine_invariant Devnet.env).of_reachable (guaranteed_true Devnet.env).admitted hn).2
  have hconn := Devnet.connects_beside hx hover hpop hpush
  exact ⟨_, _, _, _, hn, hnew, hconn, hfixed,
    hconn.not_wins_of_passed hn.keyed hline hnew List.mem_cons_self hpassed⟩

end DarknetSpace
