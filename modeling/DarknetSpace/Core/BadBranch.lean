import DarknetSpace.Core.SideChains

/-!
# What a failed switch does with the branch

When a block of the alternative chain is not added,
`switch_to_alternative_blockchain` means to remember that block and those above
it as invalid and to forget them as alternative blocks. The loop over the blocks
above has two iterators: `alt_ch_to_orph_iter` walks on, `alt_ch_iter` stays on
the first of them, whose entry the first round erases; from the second round on
an erased entry is read. And the whole cleanup is skipped when the refusal, or
the rollback in front of the cleanup, leaves by an exception.

`StopsAt` names the block the connecting stops at, with the chain in front of it and
behind it; `BlacklistsExactly` is what the source means to do, and `CleansUp` says when
it comes to that. Main result: `failed_switch_blacklists_branch_iff`, for every sound
node and every chain it switches to: whether the cleanup is complete can be told from
how the refused block is turned down, what the rollback returns, and how many blocks
follow.
-/

namespace DarknetSpace

open StateExn

/-! ## Where the connecting stops -/

/-- The height of the lowest block of the chain. -/
def splitHeight : AltChain → Nat
  | [] => 0
  | (_, front) :: _ => front.height

/-- The old blocks `old` come off, those of `pre` are added, and the block of `p`
is not. -/
structure StopsAt (env : Env) (now : Nat) (n : Node) (pre : AltChain) (p : Hash × BlockEntry)
    (rest : AltChain) (old : List Block) (m : Node) : Prop where
  split : splitHeight (pre ++ p :: rest) < n.chain.mBlocks.length
  connects : ∃ m₀, disconnectBlocks env now
      (n.chain.mBlocks.length - splitHeight (pre ++ p :: rest)) n = .ok (some old) m₀ ∧
    reconnectBlocks env now (pre.map (·.2.bl)) m₀ = .ok true m
  refused : ∀ m', handleBlockToMainChain env now p.2.bl (getBlockHash env p.2.bl) m ≠
    .ok .added m'

/-- A check turns the block down with a verdict: one on the header, on the
checkpoint and the form of the coinbase, or on recording the coinbase. -/
inductive TurnedDown (env : Env) (now : Nat) (m : Node) (bl : Block) : Prop
  | header {v : BlockVerdict} (head : checkBlockHeader env now m.chain bl = some v)
  | form (head : checkBlockHeader env now m.chain bl = none)
      (bad : checkBlockForm (m.chain.setCheckpointZone m.chain.mBlocks.length) bl
        (getBlockHash env bl) m.chain.mBlocks.length = false)
  | coinbase {s : Storage} (head : checkBlockHeader env now m.chain bl = none)
      (good : checkBlockForm (m.chain.setCheckpointZone m.chain.mBlocks.length) bl
        (getBlockHash env bl) m.chain.mBlocks.length = true)
      (bad : addTransactionFromBlock env bl.minerTx (getTransactionHash env bl.minerTx)
        m.chain.mBlocks.length 0 (m.chain.setCheckpointZone m.chain.mBlocks.length) = .ok none s)

/-- A block that is not added is turned down by a check, or leaves by an
exception: behind its coinbase there is no other way out. -/
theorem turnedDown_iff_returned {env : Env} {now : Nat} {m : Node} {bl : Block}
    (hnot : ∀ m', handleBlockToMainChain env now bl (getBlockHash env bl) m ≠ .ok .added m') :
    TurnedDown env now m bl ↔
      ∃ v m', handleBlockToMainChain env now bl (getBlockHash env bl) m = .ok v m' := by
  unfold handleBlockToMainChain at hnot ⊢
  rw [bind_of_ok (get_apply m)] at hnot ⊢
  cases hhead : checkBlockHeader env now m.chain bl with
  | some v =>
    rw [hhead] at hnot
    exact ⟨fun _ => ⟨v, m, rfl⟩, fun _ => .header hhead⟩
  | none =>
    rw [hhead] at hnot
    simp only at hnot ⊢
    rw [bind_of_ok (onChain_modify _ m), bind_of_ok (get_apply _)] at hnot ⊢
    cases hform : checkBlockForm (m.chain.setCheckpointZone m.chain.mBlocks.length) bl
        (getBlockHash env bl) m.chain.mBlocks.length with
    | false =>
      have hbad : ¬ checkBlockForm (m.chain.setCheckpointZone m.chain.mBlocks.length) bl
          (getBlockHash env bl) (m.chain.setCheckpointZone m.chain.mBlocks.length).mBlocks.length
            = true := by
        intro hc
        have := hform.symm.trans hc
        cases this
      rw [if_neg hbad]
      exact ⟨fun _ => ⟨_, _, rfl⟩, fun _ => .form hhead hform⟩
    | true =>
      have hgood : checkBlockForm (m.chain.setCheckpointZone m.chain.mBlocks.length) bl
          (getBlockHash env bl) (m.chain.setCheckpointZone m.chain.mBlocks.length).mBlocks.length
            = true := hform
      rw [if_pos hgood] at hnot ⊢
      -- a block whose coinbase was recorded, or threw, was not turned down
      have hthrew : ∀ r, addTransactionFromBlock env bl.minerTx (getTransactionHash env bl.minerTx)
          m.chain.mBlocks.length 0 (m.chain.setCheckpointZone m.chain.mBlocks.length) = r →
          (∀ s, r ≠ .ok none s) → ¬ TurnedDown env now m bl := by
        intro r hr hne h
        cases h with
        | header head =>
          rw [hhead] at head
          cases head
        | form _ bad =>
          rw [hform] at bad
          cases bad
        | coinbase _ _ bad => exact hne _ (hr.symm.trans bad)
      obtain ⟨txe, s, sa, hadd, -, ⟨m', hr, -⟩ | ⟨e, m', hr, -⟩⟩ | ⟨s, hadd, hr⟩ | ⟨e, s, hadd, hr⟩ :=
        connectBlock_cases env now bl (getBlockHash env bl)
          { m with chain := m.chain.setCheckpointZone m.chain.mBlocks.length }
      · exact absurd hr (hnot m')
      · rw [hr]
        refine ⟨fun h => absurd h (hthrew _ hadd fun s h => by cases h), fun ⟨v, m', h⟩ => ?_⟩
        cases h
      · rw [hr]
        exact ⟨fun _ => ⟨_, _, rfl⟩, fun _ => .coinbase hhead hform hadd⟩
      · rw [hr]
        refine ⟨fun h => absurd h (hthrew _ hadd fun s h => by cases h), fun ⟨v, m', h⟩ => ?_⟩
        cases h

/-! ## The cleanup -/

theorem connectAltChain_append {env : Env} {now : Nat} (height : Nat) (old : List Block)
    {pre : AltChain} (rest : AltChain) {n m : Node}
    (h : reconnectBlocks env now (pre.map (·.2.bl)) n = .ok true m) :
    connectAltChain env now old height (pre ++ rest) n =
      connectAltChain env now old height rest m := by
  induction pre generalizing n with
  | nil =>
    cases h
    rfl
  | cons p pre ih =>
    unfold reconnectBlocks at h
    obtain ⟨v, n₁, hpush, h⟩ := bind_eq_ok.1 h
    show (handleBlockToMainChain env now p.2.bl (getBlockHash env p.2.bl) >>= _) n = _
    rw [bind_of_ok hpush]
    split at h
    · next hv =>
      rw [if_pos hv]
      exact ih h
    · cases h

section

variable {env : Env} {now : Nat} {n m : Node} {pre rest : AltChain} {p : Hash × BlockEntry}
  {old : List Block}

/-- Connecting from a block that is not added never gets through. -/
theorem StopsAt.not_connected (h : StopsAt env now n pre p rest old m) {height : Nat} {m' : Node} :
    connectAltChain env now old height (p :: rest) m ≠ .ok true m' := by
  intro hr
  unfold connectAltChain at hr
  obtain ⟨v, m₁, hpush, hr⟩ := bind_eq_ok.1 hr
  split at hr
  · next hv =>
    rw [eq_added_of_accepted hpush hv] at hpush
    exact h.refused m₁ hpush
  · obtain ⟨_, _, _, hr⟩ := bind_eq_ok.1 hr
    obtain ⟨_, _, _, hr⟩ := bind_eq_ok.1 hr
    obtain ⟨_, _, _, hr⟩ := bind_eq_ok.1 hr
    obtain ⟨_, _, _, hr⟩ := bind_eq_ok.1 hr
    cases hr

/-- The switch, once the old blocks are off. -/
theorem switch_of_popped {chain : AltChain} {m₀ : Node} (hne : chain ≠ [])
    (hsplit : splitHeight chain < n.chain.mBlocks.length)
    (hpop : disconnectBlocks env now (n.chain.mBlocks.length - splitHeight chain) n =
      .ok (some old) m₀) (pushOld : Block → Hash → NodeM BlockVerdict) :
    switchToAlternativeBlockchain env now pushOld chain n =
      (connectAltChain env now old (splitHeight chain) chain >>= fun r =>
        if ¬ r then pure false
        else do
          let r ← pushOldChain env pushOld old
          if ¬ r then
            let _ ← rollbackBlockchainSwitching env now old (splitHeight chain)
            pure false
          else
            onChain (modify (eraseAltChain chain))
            pure true) m₀ := by
  cases chain with
  | nil => exact absurd rfl hne
  | cons q tail =>
    have hlt : ¬ n.chain.mBlocks.length ≤ q.2.height := Nat.not_le.2 hsplit
    have hpop' : disconnectBlocks env now (n.chain.mBlocks.length - q.2.height) n =
      .ok (some old) m₀ := hpop
    unfold switchToAlternativeBlockchain
    simp only
    rw [bind_of_ok (get_apply n), if_neg hlt, bind_of_ok hpop']
    rfl

theorem StopsAt.switch_eq (h : StopsAt env now n pre p rest old m)
    (pushOld : Block → Hash → NodeM BlockVerdict) :
    switchToAlternativeBlockchain env now pushOld (pre ++ p :: rest) n =
      connectAltChain env now old (splitHeight (pre ++ p :: rest)) (p :: rest) m := by
  obtain ⟨m₀, hpop, hpush⟩ := h.connects
  have hconn := connectAltChain_append (splitHeight (pre ++ p :: rest)) old (p :: rest) hpush
  rw [switch_of_popped (by simp) h.split hpop]
  cases hr : connectAltChain env now old (splitHeight (pre ++ p :: rest)) (p :: rest) m with
  | error e m' => exact bind_of_error (hconn.trans hr)
  | ok r m' =>
    cases r with
    | true => exact absurd hr h.not_connected
    | false => exact bind_of_ok (hconn.trans hr)

/-- The rollback in front of the cleanup, from the state the refusal leaves. -/
def rollbackAfter (env : Env) (now : Nat) (chain : AltChain) (old : List Block) (bl : Block)
    (m : Node) : EStateM.Result Exn Node Bool :=
  rollbackBlockchainSwitching env now old (splitHeight chain)
    (stateOf (handleBlockToMainChain env now bl (getBlockHash env bl) m))

/-- What the cleanup needs to reach its end: a verdict from the refused block, a
rollback that returns, and at most one block above. -/
structure CleansUp (env : Env) (now : Nat) (n : Node) (pre : AltChain) (p : Hash × BlockEntry)
    (rest : AltChain) (old : List Block) (m : Node) : Prop where
  turnedDown : TurnedDown env now m p.2.bl
  rollsBack : ∃ r m', rollbackAfter env now (pre ++ p :: rest) old p.2.bl m = .ok r m'
  single : rest.length ≤ 1
  fresh : ∀ q ∈ pre, q.1 ∉ n.chain.mInvalidBlocks

/-- The call ends, without reading an erased entry, with the bad blocks among
the invalid ones and the good ones not. -/
def BlacklistsExactly (pre bad : AltChain) (r : EStateM.Result Exn Node Bool) : Prop :=
  ∃ n', EndsIn r n' ∧
    (∀ p ∈ bad, p.1 ∈ n'.chain.mInvalidBlocks ∧ p.1 ∉ n'.chain.mAlternativeChains) ∧
    ∀ p ∈ pre, p.1 ∉ n'.chain.mInvalidBlocks

end

/-- Remembered as invalid, forgotten as alternative. -/
def markInvalid (s : Storage) (p : Hash × BlockEntry) : Storage :=
  { addBlockAsInvalid p.1 p.2 s with mAlternativeChains := s.mAlternativeChains.erase p.1 }

theorem mem_invalid_markInvalid (bad : AltChain) (s : Storage) (x : Hash) :
    x ∈ (bad.foldl markInvalid s).mInvalidBlocks ↔ x ∈ s.mInvalidBlocks ∨ ∃ p ∈ bad, p.1 = x := by
  induction bad generalizing s with
  | nil => simp
  | cons p bad ih =>
    have hstep : x ∈ (markInvalid s p).mInvalidBlocks ↔ p.1 = x ∨ x ∈ s.mInvalidBlocks := by
      show x ∈ s.mInvalidBlocks.insertIfNew p.1 p.2 ↔ _
      rw [Std.ExtTreeMap.mem_insertIfNew, Std.LawfulEqCmp.compare_eq_iff_eq]
    rw [List.foldl_cons, ih, hstep, List.exists_mem_cons_iff, or_assoc, or_left_comm]

theorem mem_alts_markInvalid (bad : AltChain) (s : Storage) (x : Hash) :
    x ∈ (bad.foldl markInvalid s).mAlternativeChains ↔
      x ∈ s.mAlternativeChains ∧ ∀ p ∈ bad, p.1 ≠ x := by
  induction bad generalizing s with
  | nil => simp
  | cons p bad ih =>
    have hstep : x ∈ (markInvalid s p).mAlternativeChains ↔
        p.1 ≠ x ∧ x ∈ s.mAlternativeChains := by
      show x ∈ s.mAlternativeChains.erase p.1 ↔ _
      rw [Std.ExtTreeMap.mem_erase, ne_eq, Std.LawfulEqCmp.compare_eq_iff_eq]
    rw [List.foldl_cons, ih, hstep, List.forall_mem_cons, and_assoc, and_left_comm]

section

variable {env : Env} {now : Nat} {n m : Node} {pre rest : AltChain} {p : Hash × BlockEntry}
  {old : List Block}

/-- The cleanup gets to its end with at most one block above the refused one. -/
theorem connectAltChain_cleanedUp {v : BlockVerdict} {m₁ m₂ : Node} {r : Bool} {height : Nat}
    (hv : (v.1 && v.2.mAddedToMainChain) = false) (hid : p.1 = getBlockHash env p.2.bl)
    (hpush : handleBlockToMainChain env now p.2.bl (getBlockHash env p.2.bl) m = .ok v m₁)
    (hroll : rollbackBlockchainSwitching env now old height m₁ = .ok r m₂)
    (hsingle : rest.length ≤ 1) :
    connectAltChain env now old height (p :: rest) m =
      .ok false { m₂ with chain := (p :: rest).foldl markInvalid m₂.chain } := by
  unfold connectAltChain
  rw [bind_of_ok hpush, hv, if_neg Bool.false_ne_true, bind_of_ok hroll,
    bind_of_ok (onChain_modify _ m₂), bind_of_ok (onChain_modify _ _), ← hid]
  cases rest with
  | nil => rfl
  | cons q rest =>
    have hnil : rest = [] := by
      cases rest with
      | nil => rfl
      | cons q' rest =>
        rw [List.length_cons, List.length_cons] at hsingle
        omega
    rw [hnil]
    rfl

/-- With two or more blocks above, the loop reads the entry it has erased. -/
theorem connectAltChain_undefined {v : BlockVerdict} {m₁ m₂ : Node} {r : Bool} {height : Nat}
    (hv : (v.1 && v.2.mAddedToMainChain) = false)
    (hpush : handleBlockToMainChain env now p.2.bl (getBlockHash env p.2.bl) m = .ok v m₁)
    (hroll : rollbackBlockchainSwitching env now old height m₁ = .ok r m₂)
    (hmany : 1 < rest.length) :
    ∃ m', connectAltChain env now old height (p :: rest) m = .error .undefinedBehaviour m' := by
  unfold connectAltChain
  rw [bind_of_ok hpush, hv, if_neg Bool.false_ne_true, bind_of_ok hroll,
    bind_of_ok (onChain_modify _ m₂), bind_of_ok (onChain_modify _ _)]
  cases rest with
  | nil => cases hmany
  | cons q rest =>
    cases rest with
    | nil => exact absurd hmany (Nat.lt_irrefl 1)
    | cons q' rest => exact ⟨_, rfl⟩

/-- The side chains on the way to the block that stops it. -/
theorem StopsAt.sideIs (h : StopsAt env now n pre p rest old m)
    (hn : Sound env (fun _ => True) n) :
    SideIs env n.chain.mAlternativeChains n.chain.mInvalidBlocks m := by
  obtain ⟨m₀, hpop, hpush⟩ := h.connects
  have hinv := sideIs_invariant env n.chain.mAlternativeChains n.chain.mInvalidBlocks
  have h₀ := hinv.keeps_disconnectBlocks now
    (n.chain.mBlocks.length - splitHeight (pre ++ p :: rest)) n ⟨hn, rfl, rfl⟩
  rw [hpop, stateOf_ok] at h₀
  have h₁ := hinv.keeps_reconnectBlocks now (pre.map (·.2.bl)) m₀ h₀
  rw [hpush, stateOf_ok] at h₁
  exact h₁

/-- An exception on the way skips the cleanup, and the refused block stays an
alternative block. -/
theorem not_blacklists_of_threw {x : Exn} {m' : Node} {invalid : Map Hash BlockEntry}
    (hhand : Handed env n (pre ++ p :: rest))
    (hside : SideIs env n.chain.mAlternativeChains invalid m') :
    ¬ BlacklistsExactly pre (p :: rest) (.error x m') := by
  intro hb
  obtain ⟨n', hends, hbad, -⟩ := hb
  have hn' : n' = m' := by
    rcases hends with ⟨a, hr⟩ | hr
    · cases hr
    · cases hr
      rfl
  have hkept := hhand.kept p (List.mem_append_right pre List.mem_cons_self)
  refine (hbad p List.mem_cons_self).2 ?_
  rw [hn', hside.alts]
  exact Std.ExtTreeMap.mem_iff_isSome_getElem?.2 (by rw [hkept]; rfl)

/-- A switch that does not get past the block of `p`: an exception leaves it, out of the push or
out of the rollback, or both return and the cleanup is next. What is kept aside is untouched. -/
theorem StopsAt.ends (hn : Sound env (fun _ => True) n) (h : StopsAt env now n pre p rest old m) :
    (∃ x m', connectAltChain env now old (splitHeight (pre ++ p :: rest)) (p :: rest) m =
        .error x m' ∧
      SideIs env n.chain.mAlternativeChains n.chain.mInvalidBlocks m' ∧
      ¬ (TurnedDown env now m p.2.bl ∧
        ∃ r m', rollbackAfter env now (pre ++ p :: rest) old p.2.bl m = .ok r m')) ∨
    ∃ v m₁ r m₂, handleBlockToMainChain env now p.2.bl (getBlockHash env p.2.bl) m = .ok v m₁ ∧
      (v.1 && v.2.mAddedToMainChain) = false ∧
      rollbackBlockchainSwitching env now old (splitHeight (pre ++ p :: rest)) m₁ = .ok r m₂ ∧
      SideIs env n.chain.mAlternativeChains n.chain.mInvalidBlocks m₂ ∧
      TurnedDown env now m p.2.bl ∧
      rollbackAfter env now (pre ++ p :: rest) old p.2.bl m = .ok r m₂ := by
  have hinv := sideIs_invariant env n.chain.mAlternativeChains n.chain.mInvalidBlocks
  have hside₁ := hinv.push now p.2.bl m (h.sideIs hn)
  cases hpush : handleBlockToMainChain env now p.2.bl (getBlockHash env p.2.bl) m with
  | error x m₁ =>
    rw [hpush, stateOf_error] at hside₁
    refine .inl ⟨x, m₁, ?_, hside₁, fun hdown => ?_⟩
    · unfold connectAltChain
      exact bind_of_error hpush
    · obtain ⟨v, m', hr⟩ := (turnedDown_iff_returned h.refused).1 hdown.1
      cases hpush.symm.trans hr
  | ok v m₁ =>
    rw [hpush, stateOf_ok] at hside₁
    have hv : (v.1 && v.2.mAddedToMainChain) = false := by
      rw [Bool.eq_false_iff]
      intro hv
      rw [eq_added_of_accepted hpush hv] at hpush
      exact h.refused m₁ hpush
    have hafter : rollbackAfter env now (pre ++ p :: rest) old p.2.bl m =
        rollbackBlockchainSwitching env now old (splitHeight (pre ++ p :: rest)) m₁ := by
      unfold rollbackAfter
      rw [hpush, stateOf_ok]
    have hside₂ := hinv.keeps_rollback now old (splitHeight (pre ++ p :: rest)) m₁ hside₁
    cases hroll : rollbackBlockchainSwitching env now old (splitHeight (pre ++ p :: rest)) m₁ with
    | error x m₂ =>
      rw [hroll, stateOf_error] at hside₂
      refine .inl ⟨x, m₂, ?_, hside₂, fun hdown => ?_⟩
      · unfold connectAltChain
        rw [bind_of_ok hpush, hv, if_neg Bool.false_ne_true]
        exact bind_of_error hroll
      · obtain ⟨r, m', hr⟩ := hdown.2
        cases (hafter.trans hroll).symm.trans hr
    | ok r m₂ =>
      rw [hroll, stateOf_ok] at hside₂
      exact .inr ⟨v, m₁, r, m₂, rfl, hv, hroll, hside₂,
        (turnedDown_iff_returned h.refused).2 ⟨v, m₁, hpush⟩, hafter.trans hroll⟩

/-- **A failed switch blacklists exactly the bad branch** when the refused block
gets a verdict, the rollback returns, at most one block follows, and the good
blocks were not blacklisted before; and in no other case. -/
theorem failed_switch_blacklists_branch_iff (hn : Sound env (fun _ => True) n)
    (hhand : Handed env n (pre ++ p :: rest)) (h : StopsAt env now n pre p rest old m)
    (pushOld : Block → Hash → NodeM BlockVerdict) :
    BlacklistsExactly pre (p :: rest)
        (switchToAlternativeBlockchain env now pushOld (pre ++ p :: rest) n) ↔
      CleansUp env now n pre p rest old m := by
  rw [h.switch_eq]
  rcases h.ends hn with ⟨x, m', hconn, hside, hno⟩ |
      ⟨v, m₁, r, m₂, hpush, hv, hroll, hside, hdown, hafter⟩
  · rw [hconn]
    exact iff_of_false (not_blacklists_of_threw hhand hside)
      fun hc => hno ⟨hc.turnedDown, hc.rollsBack⟩
  · -- the loop over the rest reads an erased entry from its second round on
    by_cases hsingle : rest.length ≤ 1
    · rw [connectAltChain_cleanedUp hv (hhand.ids p (by simp)) hpush hroll hsingle]
      constructor
      · rintro ⟨n', hends, -, hgood⟩
        refine ⟨hdown, ⟨r, m₂, hafter⟩, hsingle, fun q hq hmem => hgood q hq ?_⟩
        rw [hends.eq_stateOf, stateOf_ok]
        show q.1 ∈ ((p :: rest).foldl markInvalid m₂.chain).mInvalidBlocks
        rw [mem_invalid_markInvalid, hside.invalid]
        exact .inl hmem
      · intro hc
        refine ⟨_, .inl ⟨false, rfl⟩, fun q hq => ⟨?_, fun hmem => ?_⟩, fun q hq hmem => ?_⟩
        · exact (mem_invalid_markInvalid (p :: rest) m₂.chain q.1).2 (.inr ⟨q, hq, rfl⟩)
        · exact ((mem_alts_markInvalid (p :: rest) m₂.chain q.1).1 hmem).2 q hq rfl
        · rcases (mem_invalid_markInvalid (p :: rest) m₂.chain q.1).1 hmem with hold | ⟨q', hq', heq⟩
          · rw [hside.invalid] at hold
            exact hc.fresh q hq hold
          · have hnodup := hhand.nodup
            rw [List.map_append, List.nodup_append] at hnodup
            exact hnodup.2.2 q.1 (List.mem_map_of_mem hq) q'.1 (List.mem_map_of_mem hq') heq.symm
    · obtain ⟨m', hconn⟩ := connectAltChain_undefined hv hpush hroll (Nat.not_le.1 hsingle)
      rw [hconn]
      refine ⟨fun hb => ?_, fun hc => absurd hc.single hsingle⟩
      obtain ⟨n', hends, -⟩ := hb
      rcases hends with ⟨a, hr⟩ | hr
      · cases hr
      · cases hr

end

/-! ## On the network -/

/-- The first block of the chain is turned down by its header. -/
theorem stopsAt_first {env : Env} {now : Nat} {n : Node} {p : Hash × BlockEntry} {rest : AltChain}
    {old : List Block} (hsplit : p.2.height < n.chain.mBlocks.length)
    (hpop : returned (disconnectBlocks env now (n.chain.mBlocks.length - p.2.height) n) =
      some (some old))
    (hhead : checkBlockHeader env now (stateOf (disconnectBlocks env now
      (n.chain.mBlocks.length - p.2.height) n)).chain p.2.bl = some .failed) :
    StopsAt env now n [] p rest old
      (stateOf (disconnectBlocks env now (n.chain.mBlocks.length - p.2.height) n)) := by
  refine ⟨hsplit, ⟨_, eq_returned hpop, rfl⟩, fun m' h => ?_⟩
  unfold handleBlockToMainChain at h
  rw [bind_of_ok (get_apply _), hhead] at h
  cases h

namespace Devnet

/-- A block of another line that is dated too far ahead for the main chain, which
the checks on an alternative block let through. -/
def futureBlock : Block := { altBlock 1 0 with timestamp := 200000 }

/-- The joining block of `b`, with what its checks find out. -/
def joining (n : Node) (b : Block) : Option (AltCandidate × Nat) :=
  match altCandidate env n.chain b with
  | .ok (.inr c) =>
    match altPrevDifficulty n.chain b c.altChain with
    | .ok prev =>
      if n.chain.mCheckpoints.isHeightPassedZone (getBlockHeight b).toNat
            (n.chain.getCurrentBlockchainHeight - 1) = false ∧
          checkBlockForm (n.chain.setCheckpointZone c.height) b (getBlockHash env b) c.height = true ∧
          n.chain.mAlternativeChains.contains (getBlockHash env b) = false then some (c, prev)
      else none
    | .error _ => none
  | _ => none

theorem joins_of_joining {n : Node} {b : Block} {x : AltCandidate × Nat} (h : joining n b = some x) :
    Joins env n b x.1 x.2 := by
  unfold joining at h
  split at h
  · next c hc =>
    split at h
    · next prev hprev =>
      split at h
      · next hif =>
        cases h
        exact ⟨hif.1, hc, hif.2.1, hprev, hif.2.2⟩
      · cases h
    · cases h
  · cases h

/-- Another line that starts with the future block, one short of overtaking. -/
def shortBranch : List Event := [.newBlock (mainBlock 1), .newBlock futureBlock]
def longBranch : List Event :=
  [.newBlock (mainBlock 1), .newBlock (mainBlock 2), .newBlock futureBlock,
    .newBlock (altBlock 2 101)]

end Devnet

/-- One block above the refused one. -/
theorem failed_switch_blacklists_branch_iff_devnet :
    ∃ n p q, Sound Devnet.env (fun _ => True) n ∧ Handed Devnet.env n [p, q] ∧
      BlacklistsExactly [] [p, q] (switchToAlternativeBlockchain Devnet.env Devnet.now
        (handleAlternativeBlock Devnet.env Devnet.now 2) [p, q] n) := by
  have eval :
      (Devnet.run ∅ Devnet.shortBranch).isSome = true ∧
      ∃ x ∈ Devnet.joining (Devnet.node ∅ Devnet.shortBranch) (Devnet.altBlock 2 101),
        ∃ p ∈ (joinedChain Devnet.env (Devnet.altBlock 2 101) x.1 x.2)[0]?,
        ∃ q ∈ (joinedChain Devnet.env (Devnet.altBlock 2 101) x.1 x.2)[1]?,
          (joinedChain Devnet.env (Devnet.altBlock 2 101) x.1 x.2).length = 2 ∧
          let n := joined Devnet.env (Devnet.node ∅ Devnet.shortBranch) (Devnet.altBlock 2 101) x.1 x.2
          let r := disconnectBlocks Devnet.env Devnet.now (n.chain.mBlocks.length - p.2.height) n
          p.2.height < n.chain.mBlocks.length ∧
          returned r = some (some [Devnet.mainBlock 1]) ∧
          checkBlockHeader Devnet.env Devnet.now (stateOf r).chain p.2.bl = some .failed ∧
          (returned (rollbackAfter Devnet.env Devnet.now [p, q] [Devnet.mainBlock 1] p.2.bl
            (stateOf r))).isSome = true := by
    decide +kernel
  obtain ⟨hrun, x, hx, p, hp, q, hq, hlen, hsplit, hpop, hhead, hroll⟩ := eval
  have hreach := Devnet.reachable_node ∅ Devnet.shortBranch hrun
  have hjoins := Devnet.joins_of_joining hx
  have hhand := hjoins.handed hreach.keyed
  have hsound := ((keyed_invariant Devnet.env).join _ _ _ _ hjoins hreach.keyed).sound
  generalize Devnet.node ∅ Devnet.shortBranch = n₀ at hhand hsound hsplit hpop hhead hroll
  generalize joined Devnet.env n₀ (Devnet.altBlock 2 101) x.1 x.2 = n at *
  generalize joinedChain Devnet.env (Devnet.altBlock 2 101) x.1 x.2 = chain at *
  match chain, hlen with
  | [p', q'], _ =>
    cases hp
    cases hq
    obtain ⟨r, hr⟩ := Option.isSome_iff_exists.1 hroll
    refine ⟨n, p, q, hsound, hhand, ?_⟩
    exact (failed_switch_blacklists_branch_iff hsound hhand (stopsAt_first hsplit hpop hhead) _).2
      ⟨.header hhead, ⟨r, _, eq_returned hr⟩, Nat.le_refl 1, fun _ h => absurd h List.not_mem_nil⟩

def readsUndefined : EStateM.Result Exn Node Bool → Bool
  | .error .undefinedBehaviour _ => true
  | _ => false

/-- With two blocks above the refused one, a chain that a node is handed in the
ordinary course makes it read the entry it has erased. -/
theorem failed_switch_reads_erased_entry :
    ∃ n b c prev p rest old m, Reachable Devnet.env n ∧ Joins Devnet.env n b c prev ∧
      Overtakes n b c prev ∧ joinedChain Devnet.env b c prev = p :: rest ∧
      StopsAt Devnet.env Devnet.now (joined Devnet.env n b c prev) [] p rest old m ∧
      ¬ BlacklistsExactly [] (p :: rest) (switchToAlternativeBlockchain Devnet.env Devnet.now
        (handleAlternativeBlock Devnet.env Devnet.now 2) (p :: rest)
          (joined Devnet.env n b c prev)) := by
  have eval :
      (Devnet.run ∅ Devnet.longBranch).isSome = true ∧
      ∃ x ∈ Devnet.joining (Devnet.node ∅ Devnet.longBranch) (Devnet.altBlock 3 102),
        Overtakes (Devnet.node ∅ Devnet.longBranch) (Devnet.altBlock 3 102) x.1 x.2 ∧
        ∃ p ∈ (joinedChain Devnet.env (Devnet.altBlock 3 102) x.1 x.2)[0]?,
          let n := joined Devnet.env (Devnet.node ∅ Devnet.longBranch) (Devnet.altBlock 3 102) x.1 x.2
          let r := disconnectBlocks Devnet.env Devnet.now (n.chain.mBlocks.length - p.2.height) n
          p.2.height < n.chain.mBlocks.length ∧
          returned r = some (some [Devnet.mainBlock 1, Devnet.mainBlock 2]) ∧
          checkBlockHeader Devnet.env Devnet.now (stateOf r).chain p.2.bl = some .failed ∧
          readsUndefined (switchToAlternativeBlockchain Devnet.env Devnet.now
            (handleAlternativeBlock Devnet.env Devnet.now 2)
            (joinedChain Devnet.env (Devnet.altBlock 3 102) x.1 x.2) n) = true := by
    decide +kernel
  obtain ⟨hrun, x, hx, hover, p, hp, hsplit, hpop, hhead, hundef⟩ := eval
  have hreach := Devnet.reachable_node ∅ Devnet.longBranch hrun
  have hjoins := Devnet.joins_of_joining hx
  generalize Devnet.node ∅ Devnet.longBranch = n at hreach hjoins hover hsplit hpop hhead hundef
  cases hchain : joinedChain Devnet.env (Devnet.altBlock 3 102) x.1 x.2 with
  | nil =>
    rw [hchain] at hp
    cases hp
  | cons p' rest =>
    rw [hchain] at hp hundef
    cases hp
    refine ⟨n, _, _, _, p, rest, _, _, hreach, hjoins, hover, hchain,
      stopsAt_first hsplit hpop hhead, fun hb => ?_⟩
    obtain ⟨n', hends, -⟩ := hb
    rcases hends with ⟨a, hr⟩ | hr
    · rw [hr] at hundef
      cases hundef
    · rw [hr] at hundef
      cases hundef

end DarknetSpace
