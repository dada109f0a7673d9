import DarknetSpace.Core.SwitchShape

/-!
# One new block keeps the shape

A block that is handed to `add_new_block` goes onto the top, joins the store, or makes
the node switch. The cases are those of `KeepsShape`. For a switch the state is followed
through its phases: connected as far as it got (`Connects`), switched
(`Connects.shape_switched`), or turned back at a block that was refused, with the old
chain restored (`Connects.shape_turnedBack`) and what is behind the refused block taken
out of the store (`shape_cleaned`).

Main result: `Shaped.newBlock`, for every block, clock and way to end among these.
-/

namespace DarknetSpace

open StateExn

/-! ## One new block -/

section

variable {env : Env} {now : Nat} {n : Node} {bl : Block} {c : AltCandidate} {prev : Nat}

/-- A chain splits off above the genesis block and below the top. -/
theorem Joins.split_bounds (h : Joins env n bl c prev) :
    1 ≤ splitHeight (joinedChain env bl c prev) ∧
      splitHeight (joinedChain env bl c prev) < n.chain.mBlocks.length := by
  obtain ⟨split, hj⟩ := altCandidate_judged h.candidate
  obtain ⟨base, pad, patch, main, hbase, -⟩ := hj.pad
  have hlen := (List.getElem?_eq_some_iff.1 hbase).1
  have hpos := hj.split_pos
  have hsplit : splitHeight (joinedChain env bl c prev) = split := by
    have hh := hj.hangs
    have hc := hj.height
    unfold joinedChain
    cases hchain : c.altChain with
    | nil =>
      rw [hchain] at hc
      exact hc
    | cons p rest =>
      rw [hchain] at hh
      exact hh.1
  omega

theorem Shaped.keyed (h : Shaped env n) : Keyed env n := ⟨h.sound, h.shape.keys⟩

theorem Joins.keyed (h : Joins env n bl c prev) (hn : Keyed env n) :
    Keyed env (joined env n bl c prev) :=
  (keyed_invariant env).join n bl c prev h hn

/-- A block nobody knows joins. -/
theorem Joins.shape (h : Joins env n bl c prev) (hn : Shaped env n)
    (hnew : n.chain.haveBlock (getBlockHash env bl) = false) :
    StoreShape env n.chain.mBlocksIndex (joined env n bl c prev).chain.mAlternativeChains := by
  unfold Storage.haveBlock at hnew
  rw [Bool.or_eq_false_iff, Bool.or_eq_false_iff, decide_eq_false_iff_not] at hnew
  exact hn.shape.insert rfl (getElem?_of_not_contains hnew.1.2) hnew.1.1 h.hasParent

theorem Joins.stacked (h : Joins env n bl c prev) (hn : Shaped env n)
    (hnew : n.chain.haveBlock (getBlockHash env bl) = false) :
    Stacked (joined env n bl c prev).chain.mAlternativeChains
      (splitHeight (joinedChain env bl c prev)) (joinedChain env bl c prev) := by
  refine (h.shape hn hnew).stacked (h.handed hn.keyed).kept fun i p q hp hq => ?_
  obtain ⟨split, hj⟩ := altCandidate_judged h.candidate
  have hlen := (List.getElem?_eq_some_iff.1 hq).1
  unfold joinedChain at hp hq hlen
  rw [List.length_append, List.length_singleton] at hlen
  rw [List.getElem?_append_left (by omega)] at hp
  by_cases hlt : i + 1 < c.altChain.length
  · rw [List.getElem?_append_left hlt] at hq
    exact altChainTo_prevId hj.chain hp hq
  · have hi : i + 1 = c.altChain.length := by omega
    rw [hi, List.getElem?_concat_length] at hq
    cases hq
    rcases altChainTo_last hj.chain with ⟨hnil, -⟩ | ⟨below, e, _, hsplit, -, -⟩
    · rw [hnil] at hi
      cases hi
    · have hlast : c.altChain.getLast? = some p := by
        rw [List.getLast?_eq_getElem?, ← hi]
        exact hp
      rw [hsplit, List.getLast?_concat] at hlast
      cases hlast
      rfl

/-- What is known when the whole chain is connected. -/
theorem Connects.facts {old : List Block} {m : Node} (h : Connects env now n bl c prev old m)
    (hn : Keyed env n) :
    SideIs env (joined env n bl c prev).chain.mAlternativeChains n.chain.mInvalidBlocks m ∧
      m.chain.mBlocksIndex =
        n.chain.mBlocksIndex.take (splitHeight (joinedChain env bl c prev)) ++
          (joinedChain env bl c prev).map (·.1) ∧
      old.map (getBlockHash env) =
        n.chain.mBlocksIndex.drop (splitHeight (joinedChain env bl c prev)) ∧
      old = (n.chain.mBlocks.drop (splitHeight (joinedChain env bl c prev))).map (·.bl) := by
  obtain ⟨m₀, hpop, hpush⟩ := h.connects
  obtain ⟨-, hlt⟩ := h.joins.split_bounds
  have hN := (h.joins.keyed hn).sound
  have hinv := sideIs_invariant env (joined env n bl c prev).chain.mAlternativeChains
    n.chain.mInvalidBlocks
  have hs₀ := hinv.keeps_disconnectBlocks now
    (n.chain.mBlocks.length - splitHeight (joinedChain env bl c prev)) _ ⟨hN, rfl, rfl⟩
  rw [hpop, stateOf_ok] at hs₀
  have hs := hinv.keeps_reconnectBlocks now ((joinedChain env bl c prev).map (·.2.bl)) m₀ hs₀
  rw [hpush, stateOf_ok] at hs
  have hcount : (joined env n bl c prev).chain.mBlocks.length -
      (n.chain.mBlocks.length - splitHeight (joinedChain env bl c prev)) =
        splitHeight (joinedChain env bl c prev) := Nat.sub_sub_self (Nat.le_of_lt hlt)
  obtain ⟨hm₀, hidx₀, hold⟩ := index_disconnected hN hpop
  obtain ⟨-, -, -, hblocks⟩ := disconnectBlocks_some hN hpop
  obtain ⟨-, hidx⟩ := index_reconnected hm₀ hpush
  rw [hcount] at hidx₀ hold hblocks
  refine ⟨hs, ?_, hold, hblocks⟩
  have hids : ((joinedChain env bl c prev).map (·.2.bl)).map (getBlockHash env) =
      (joinedChain env bl c prev).map (·.1) := by
    rw [List.map_map]
    exact List.map_congr_left fun p hp => ((h.joins.handed hn).ids p hp).symm
  rw [hidx, hidx₀, hids]
  rfl

/-- The old blocks, as the index knows them. -/
theorem Connects.old_at {old : List Block} {m : Node} (h : Connects env now n bl c prev old m)
    (hn : Keyed env n) (hline : MainLine env n.chain.mBlocks) (i : Nat) (b : Block)
    (hb : old[i]? = some b) :
    n.chain.mBlocksIndex[splitHeight (joinedChain env bl c prev) + i]? = some (getBlockHash env b) ∧
      n.chain.mBlocksIndex[splitHeight (joinedChain env bl c prev) + i - 1]? = some b.prevId := by
  obtain ⟨-, -, -, hold⟩ := h.facts hn
  obtain ⟨hpos, -⟩ := h.joins.split_bounds
  rw [hold, List.getElem?_map, List.getElem?_drop] at hb
  obtain ⟨e, he, rfl⟩ := Option.map_eq_some_iff.1 hb
  have hlen := (List.getElem?_eq_some_iff.1 he).1
  rw [hn.sound.index, blockIds]
  refine ⟨by rw [List.getElem?_map, he]; rfl, ?_⟩
  obtain ⟨e₀, he₀⟩ : ∃ e₀, n.chain.mBlocks[splitHeight (joinedChain env bl c prev) + i - 1]? =
      some e₀ := ⟨_, List.getElem?_eq_getElem (by omega)⟩
  have hlink := hline.2 _ e₀ e he₀ (by rw [Nat.sub_add_cancel (by omega)]; exact he)
  rw [List.getElem?_map, he₀, hlink]
  rfl

/-- The switch, once the new chain is connected. -/
theorem Connects.switch_eq {old : List Block} {m : Node} (h : Connects env now n bl c prev old m)
    (pushOld : Block → Hash → NodeM BlockVerdict) :
    switchToAlternativeBlockchain env now pushOld (joinedChain env bl c prev)
        (joined env n bl c prev) =
      (pushOldChain env pushOld old >>= fun r =>
        if ¬ r then do
          let _ ← rollbackBlockchainSwitching env now old (splitHeight (joinedChain env bl c prev))
          pure false
        else do
          onChain (modify (eraseAltChain (joinedChain env bl c prev)))
          pure true) m := by
  obtain ⟨m₀, hpop, hpush⟩ := h.connects
  obtain ⟨-, hlt⟩ := h.joins.split_bounds
  have hconn : connectAltChain env now old (splitHeight (joinedChain env bl c prev))
      (joinedChain env bl c prev) m₀ = .ok true m := by
    have := connectAltChain_append (splitHeight (joinedChain env bl c prev)) old [] hpush
    rw [List.append_nil] at this
    exact this
  have hne : joinedChain env bl c prev ≠ [] := by simp [joinedChain]
  rw [switch_of_popped (n := joined env n bl c prev) hne hlt hpop, bind_of_ok hconn]
  rfl

/-- **A reorganisation that goes through.** -/
theorem Connects.shape_switched {old : List Block} {m m' : Node}
    (h : Connects env now n bl c prev old m) (haside : KeptAside env now old m m')
    (hn : Shaped env n) (hnew : n.chain.haveBlock (getBlockHash env bl) = false) (depth : Nat) :
    let n' := stateOf (switchToAlternativeBlockchain env now (handleAlternativeBlock env now depth)
      (joinedChain env bl c prev) (joined env n bl c prev))
    StoreShape env n'.chain.mBlocksIndex n'.chain.mAlternativeChains := by
  obtain ⟨hside, hidx, hold, -⟩ := h.facts hn.keyed
  obtain ⟨hpos, hlt⟩ := h.joins.split_bounds
  have hshape := h.joins.shape hn hnew
  have hstacked := h.joins.stacked hn hnew
  have hnodup : n.chain.mBlocksIndex.Nodup := hn.sound.index ▸ hn.line.1.nodup
  have hsync := hn.sound.sync
  -- the store after the old blocks joined
  have hstart : AsideUpTo env n.chain.mBlocksIndex (splitHeight (joinedChain env bl c prev))
      (splitHeight (joinedChain env bl c prev)) (joined env n bl c prev).chain.mAlternativeChains
      m.chain.mAlternativeChains := by
    rw [hside.alts]
    exact ⟨fun _ _ he => he, fun _ _ he => .inl he, fun k id hk hlt => absurd hk (by omega)⟩
  obtain ⟨hidx', hall⟩ := haside.asideUpTo hshape hnodup hpos hstacked.kept (Nat.le_refl _) hidx hstart
    (h.old_at hn.keyed hn.line)
  have hlen : splitHeight (joinedChain env bl c prev) + old.length = n.chain.mBlocksIndex.length := by
    have := congrArg List.length hold
    rw [List.length_map, List.length_drop] at this
    omega
  rw [hlen] at hall
  have hfinal := hshape.switched hnodup hpos (by omega) hstacked hall
  -- and the way the switch takes there
  have hswitch : switchToAlternativeBlockchain env now (handleAlternativeBlock env now depth)
      (joinedChain env bl c prev) (joined env n bl c prev) =
        .ok true { m' with chain := eraseAltChain (joinedChain env bl c prev) m'.chain } := by
    rw [h.switch_eq]
    exact bind_of_ok (haside.pushOldChain depth)
  simp only [hswitch, stateOf_ok]
  show StoreShape env m'.chain.mBlocksIndex _
  rw [hidx', hidx]
  exact hfinal

/-- A refusal at depth zero leaves nothing behind but the checkpoint-zone flag. -/
theorem refused_state {b : Block} {v : BlockVerdict} {m m₁ : Node}
    (h : handleAlternativeBlock env now 0 b (getBlockHash env b) m = .ok v m₁) (hno : v.1 = false) :
    ∃ zone, m₁ = { m with chain := { m.chain with mIsInCheckpointZone := zone } } := by
  unfold handleAlternativeBlock at h
  rcases alternativeBlock_cases env m b with ⟨r, ha, hr⟩ | ⟨c, prev, -, ⟨-, hr⟩ | ⟨-, hr⟩⟩
  · obtain ⟨zone, hz⟩ := ha.state
    rw [hr] at h
    rw [h, stateOf_ok] at hz
    exact ⟨zone, hz⟩
  · rw [hr] at h
    cases h
    cases hno
  · rw [hr] at h
    cases h

/-- **The first old block is refused**, and everything goes back. -/
theorem Connects.shape_turnedBack {b : Block} {rest : List Block} {v : BlockVerdict} {m m₁ m' : Node}
    (h : Connects env now n bl c prev (b :: rest) m)
    (hrefused : handleAlternativeBlock env now 0 b (getBlockHash env b) m = .ok v m₁)
    (hno : v.1 = false)
    (hback : rollbackBlockchainSwitching env now (b :: rest)
      (splitHeight (joinedChain env bl c prev)) m₁ = .ok true m')
    (hn : Shaped env n) (hnew : n.chain.haveBlock (getBlockHash env bl) = false) (depth : Nat) :
    let n' := stateOf (switchToAlternativeBlockchain env now (handleAlternativeBlock env now depth)
      (joinedChain env bl c prev) (joined env n bl c prev))
    StoreShape env n'.chain.mBlocksIndex n'.chain.mAlternativeChains := by
  obtain ⟨hside, hidx, hold, -⟩ := h.facts hn.keyed
  obtain ⟨-, hlt⟩ := h.joins.split_bounds
  have hsync := hn.sound.sync
  have hswitch : switchToAlternativeBlockchain env now (handleAlternativeBlock env now depth)
      (joinedChain env bl c prev) (joined env n bl c prev) = .ok false m' := by
    have hpush : pushOldChain env (handleAlternativeBlock env now depth) (b :: rest) m =
        .ok false m₁ := by
      unfold pushOldChain
      rw [bind_of_ok (handleAlternativeBlock_of_zero hrefused depth), hno]
      rfl
    rw [h.switch_eq, bind_of_ok hpush]
    exact bind_of_ok hback
  obtain ⟨zone, hm₁⟩ := refused_state hrefused hno
  have hs₁ : SideIs env (joined env n bl c prev).chain.mAlternativeChains n.chain.mInvalidBlocks
      m₁ := by
    rw [hm₁]
    exact ⟨⟨hside.sound.index, hside.sound.outputs, hside.sound.txs, hside.sound.pool⟩, hside.alts,
      hside.invalid⟩
  have hidx₁ : m₁.chain.mBlocksIndex = m.chain.mBlocksIndex := by rw [hm₁]
  have hs' := (sideIs_invariant env _ _).keeps_rollback now (b :: rest)
    (splitHeight (joinedChain env bl c prev)) m₁ hs₁
  rw [hback, stateOf_ok] at hs'
  have hmain : m'.chain.mBlocksIndex = n.chain.mBlocksIndex :=
    index_restored hs₁.sound (by omega) ⟨_, hidx₁.trans hidx⟩ hold hback
  simp only [hswitch, stateOf_ok]
  rw [hmain, hs'.alts]
  exact h.joins.shape hn hnew

theorem alts_markInvalid (bad : AltChain) (s : Storage) :
    (bad.foldl markInvalid s).mAlternativeChains =
        bad.foldl (fun m p => m.erase p.1) s.mAlternativeChains ∧
      (bad.foldl markInvalid s).mBlocksIndex = s.mBlocksIndex := by
  induction bad generalizing s with
  | nil => exact ⟨rfl, rfl⟩
  | cons p bad ih => exact ih (markInvalid s p)

/-- **The cleanup comes to its end**, and nothing else hangs on what it erases. -/
theorem shape_cleaned {pre rest : AltChain} {p : Hash × BlockEntry} {old : List Block} {m m' : Node}
    (hj : Joins env n bl c prev) (hchain : joinedChain env bl c prev = pre ++ p :: rest)
    (hstops : StopsAt env now (joined env n bl c prev) pre p rest old m)
    (hdown : TurnedDown env now m p.2.bl)
    (hback : rollbackAfter env now (pre ++ p :: rest) old p.2.bl m = .ok true m')
    (hsingle : rest.length ≤ 1)
    (halone : ∀ (id : Hash) e, (joined env n bl c prev).chain.mAlternativeChains[id]? = some e →
      (∀ q ∈ p :: rest, q.1 ≠ id) → ∀ q ∈ p :: rest, q.1 ≠ e.bl.prevId)
    (hn : Shaped env n) (hnew : n.chain.haveBlock (getBlockHash env bl) = false) (depth : Nat) :
    let n' := stateOf (switchToAlternativeBlockchain env now (handleAlternativeBlock env now depth)
      (joinedChain env bl c prev) (joined env n bl c prev))
    StoreShape env n'.chain.mBlocksIndex n'.chain.mAlternativeChains := by
  have hN := (hj.keyed hn.keyed).sound
  have hhand := hj.handed hn.keyed
  have hsplit : splitHeight (pre ++ p :: rest) < n.chain.mBlocks.length := hstops.split
  have hsync := hn.sound.sync
  have hinv := sideIs_invariant env (joined env n bl c prev).chain.mAlternativeChains
    n.chain.mInvalidBlocks
  obtain ⟨v, m₁, hpush⟩ := (turnedDown_iff_returned hstops.refused).1 hdown
  have hv : (v.1 && v.2.mAddedToMainChain) = false := by
    rw [Bool.eq_false_iff]
    intro hv
    rw [eq_added_of_accepted hpush hv] at hpush
    exact hstops.refused m₁ hpush
  have hroll : rollbackBlockchainSwitching env now old (splitHeight (pre ++ p :: rest)) m₁ =
      .ok true m' := by
    unfold rollbackAfter at hback
    rwa [hpush, stateOf_ok] at hback
  -- the main chain is back
  have hm₁ : Sound env (fun _ => True) m₁ ∧ m₁.chain.mBlocksIndex = m.chain.mBlocksIndex := by
    have hm := (hstops.sideIs hN).sound
    have ho := handleBlockToMainChain_addedOrQuiet hm now p.2.bl (getBlockHash env p.2.bl)
    rw [hpush] at ho
    rcases ho with rfl | hq
    · exact absurd hpush (hstops.refused m₁)
    · exact ⟨hm.of_quiet hq, hq.chain.index⟩
  obtain ⟨m₀, hpop, hpre⟩ := hstops.connects
  obtain ⟨hm₀, hidx₀, hold⟩ := index_disconnected hN hpop
  obtain ⟨-, hidx⟩ := index_reconnected hm₀ hpre
  have hcount : (joined env n bl c prev).chain.mBlocks.length -
      ((joined env n bl c prev).chain.mBlocks.length - splitHeight (pre ++ p :: rest)) =
        splitHeight (pre ++ p :: rest) := Nat.sub_sub_self (Nat.le_of_lt hstops.split)
  have hindex : (joined env n bl c prev).chain.mBlocksIndex = n.chain.mBlocksIndex := rfl
  rw [hcount, hindex] at hidx₀ hold
  have hmain : m'.chain.mBlocksIndex = n.chain.mBlocksIndex :=
    index_restored hm₁.1 (by omega) ⟨_, hm₁.2.trans (hidx.trans (by rw [hidx₀]))⟩ hold hroll
  -- and the store has lost the bad branch only
  have hs₁ := hinv.push now p.2.bl m (hstops.sideIs hN)
  rw [hpush, stateOf_ok] at hs₁
  have hs' := hinv.keeps_rollback now old (splitHeight (pre ++ p :: rest)) m₁ hs₁
  rw [hroll, stateOf_ok] at hs'
  have hid : p.1 = getBlockHash env p.2.bl := hhand.ids p (by rw [hchain]; simp)
  simp only
  rw [hchain, hstops.switch_eq, connectAltChain_cleanedUp hv hid hpush hroll hsingle, stateOf_ok]
  show StoreShape env ((p :: rest).foldl markInvalid m'.chain).mBlocksIndex
    ((p :: rest).foldl markInvalid m'.chain).mAlternativeChains
  rw [(alts_markInvalid _ _).1, (alts_markInvalid _ _).2, hmain, hs'.alts]
  have hkept : ∀ (id : Hash) e, ((p :: rest).foldl (fun m p => m.erase p.1)
      (joined env n bl c prev).chain.mAlternativeChains)[id]? = some e →
      (joined env n bl c prev).chain.mAlternativeChains[id]? = some e ∧
        ∀ q ∈ p :: rest, q.1 ≠ id := by
    intro id e he
    rw [getElem?_eraseChain] at he
    split at he
    · cases he
    · next hmem => exact ⟨he, fun q hq heq => hmem (heq ▸ List.mem_map_of_mem hq)⟩
  refine (hj.shape hn hnew).restrict (fun id e he => (hkept id e he).1) fun id e parent he hp => ?_
  obtain ⟨he, hne⟩ := hkept id e he
  rw [getElem?_eraseChain, if_neg, hp]
  intro hmem
  obtain ⟨q, hq, hqid⟩ := List.mem_map.1 hmem
  exact halone id e he hne q hq hqid

theorem stateOf_catchEntry {x : NodeM Bool} {m : Node} :
    stateOf (catchEntry (x >>= fun r => pure (if r then BlockVerdict.added else .failed)) m) =
      stateOf (x m) := by
  unfold catchEntry
  rw [bind_apply]
  cases x m with
  | ok r m' => rfl
  | error e m' =>
    cases e with
    | indexOverflow => rfl
    | undefinedBehaviour => rfl
    | endless => rfl

/-- A new block that overtakes ends where the switch ends. -/
theorem EndsIn.of_switch {depth : Nat} {n' : Node} (hj : Joins env n bl c prev)
    (hover : Overtakes n bl c prev)
    (h : EndsIn (handleAlternativeBlock env now depth bl (getBlockHash env bl) n) n') :
    ∃ depth', n' = stateOf (switchToAlternativeBlockchain env now
      (handleAlternativeBlock env now depth') (joinedChain env bl c prev)
        (joined env n bl c prev)) := by
  cases depth with
  | zero =>
    unfold handleAlternativeBlock at h
    rw [hj.switches hover] at h
    rcases h with ⟨a, hr⟩ | hr
    · cases hr
    · cases hr
  | succ depth =>
    refine ⟨depth, ?_⟩
    have heq := h.eq_stateOf
    unfold handleAlternativeBlock at heq
    rw [hj.switches hover, stateOf_catchEntry] at heq
    exact heq

/-- A block on top of the main chain, whatever comes of it. -/
theorem Shaped.shape_onTop (hn : Shaped env n)
    (hnew : n.chain.haveBlock (getBlockHash env bl) = false) :
    let n' := stateOf (handleBlockToMainChain env now bl (getBlockHash env bl) n)
    StoreShape env n'.chain.mBlocksIndex n'.chain.mAlternativeChains := by
  have hside := (sideIs_invariant env n.chain.mAlternativeChains n.chain.mInvalidBlocks).push now bl n
    ⟨hn.sound, rfl, rfl⟩
  have ho := handleBlockToMainChain_addedOrQuiet hn.sound now bl (getBlockHash env bl)
  unfold Storage.haveBlock at hnew
  rw [Bool.or_eq_false_iff, Bool.or_eq_false_iff] at hnew
  have hfree : n.chain.mAlternativeChains[getBlockHash env bl]? = none :=
    getElem?_of_not_contains hnew.1.2
  have quiet : ∀ m, SideIs env n.chain.mAlternativeChains n.chain.mInvalidBlocks m →
      Quiet env (fun _ => True) n m →
      StoreShape env m.chain.mBlocksIndex m.chain.mAlternativeChains := by
    intro m hs hq
    rw [hq.chain.index, hs.alts]
    exact hn.shape
  cases hr : handleBlockToMainChain env now bl (getBlockHash env bl) n with
  | error e m =>
    rw [hr] at hside ho
    exact quiet m hside ho
  | ok v m =>
    rw [hr] at hside ho
    rcases ho with rfl | hq
    · obtain ⟨con⟩ := handleBlockToMainChain_added hr
      show StoreShape env m.chain.mBlocksIndex m.chain.mAlternativeChains
      rw [con.index_eq hn.sound, ← (stateOf_ok BlockVerdict.added m : stateOf _ = m), hside.alts]
      exact hn.shape.extend hfree
    · exact quiet m hside hq

/-- An alternative block that does not overtake. -/
theorem Shaped.shape_beside (hn : Shaped env n)
    (hnew : n.chain.haveBlock (getBlockHash env bl) = false)
    (hlight : ∀ c prev, Joins env n bl c prev → ¬ Overtakes n bl c prev) (depth : Nat) :
    let n' := stateOf (handleAlternativeBlock env now depth bl (getBlockHash env bl) n)
    StoreShape env n'.chain.mBlocksIndex n'.chain.mAlternativeChains := by
  have any : ∀ switch,
      let n' := stateOf (alternativeBlock env switch bl (getBlockHash env bl) n)
      StoreShape env n'.chain.mBlocksIndex n'.chain.mAlternativeChains := by
    intro switch
    rcases alternativeBlock_cases env n bl with ⟨r, ha, hr⟩ | ⟨c, prev, hj, ⟨-, hr⟩ | ⟨hover, -⟩⟩
    · obtain ⟨zone, hz⟩ := ha.state
      simp only [hr, hz]
      exact hn.shape
    · simp only [hr, stateOf_ok]
      exact hj.shape hn hnew
    · exact absurd hover (hlight c prev hj)
  cases depth with
  | zero => exact any _
  | succ depth => exact any _

/-- **One new block.** -/
theorem Shaped.newBlock {depth : Nat} {n' : Node} (hn : Shaped env n)
    (hcond : KeepsShape env now n bl) (ends : EndsIn (addNewBlock env now depth bl n) n') :
    Shaped env n' := by
  have hline := (mainLine_invariant env).chainInvariant.addNewBlock now depth bl
  have hsound : Sound env (fun _ => True) n' ∧ MainLine env n'.chain.mBlocks := by
    rcases ends with ⟨a, hr⟩ | hr
    · exact hline.ok ⟨hn.sound, hn.line⟩ hr
    · exact hline.error ⟨hn.sound, hn.line⟩ hr rfl
  refine ⟨hsound.1, hsound.2, ?_⟩
  cases hknown : n.chain.haveBlock (getBlockHash env bl) with
  | true =>
    have hn' := ends.eq_stateOf
    unfold addNewBlock at hn'
    rw [bind_of_ok (get_apply n), if_pos hknown] at hn'
    rw [hn']
    exact hn.shape
  | false =>
    have hnot : ¬ n.chain.haveBlock (getBlockHash env bl) = true := by
      rw [hknown]
      exact Bool.false_ne_true
    unfold addNewBlock at ends
    rw [bind_of_ok (get_apply n), if_neg hnot] at ends
    by_cases htop : bl.prevId = n.chain.getTopBlockId env
    · rw [if_neg (not_not.2 htop)] at ends
      rw [ends.eq_stateOf]
      exact hn.shape_onTop hknown
    · rw [if_pos htop] at ends
      cases hcond with
      | known h => exact absurd h hnot
      | onTop h => exact absurd h htop
      | beside hlight =>
        rw [ends.eq_stateOf]
        exact hn.shape_beside hknown hlight depth
      | switched hconnects haside =>
        obtain ⟨depth', hn'⟩ := ends.of_switch hconnects.joins hconnects.overtakes
        rw [hn']
        exact hconnects.shape_switched haside hn hknown depth'
      | turnedBack hconnects hrefused hno hback =>
        obtain ⟨depth', hn'⟩ := ends.of_switch hconnects.joins hconnects.overtakes
        rw [hn']
        exact hconnects.shape_turnedBack hrefused hno hback hn hknown depth'
      | cleaned hj hover hchain hstops hdown hback hsingle halone =>
        obtain ⟨depth', hn'⟩ := ends.of_switch hj hover
        rw [hn']
        exact shape_cleaned hj hchain hstops hdown hback hsingle halone hn hknown depth'

end

end DarknetSpace
