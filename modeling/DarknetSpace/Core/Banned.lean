import DarknetSpace.Core.AltStore

/-!
# Which blocks the node bans

A block in `m_invalid_blocks` is refused for ever. `handle_block_to_main_chain`
means to put a block there when one of its transactions has wrong inputs, and
never does (`Blacklist.lean`). What does is the cleanup of
`switch_to_alternative_blockchain`: the first block of the new chain that the
main chain does not take, and the block above it, are put there whatever was
wrong with them.

So the ban does not come from the transactions. It comes from the three checks
ahead of them, on the header, on the checkpoint and the form of the coinbase,
and on recording the coinbase (`TurnedDown`); past these every refusal is an
exception, which skips the cleanup. And of these checks the one on the
timestamp asks more of a block on the main chain than of an alternative block:
`check_block_timestamp_main` refuses a date too far ahead of the clock,
`check_block_timestamp` knows no clock. An alternative block that is dated too
far ahead is kept, tried at the switch, turned down, and banned, although
nothing is wrong with its transactions and the clock would have caught up.

`only_switches_ban` says which calls ban which ids, `StopsAt.mem_invalid_iff` when
a tried block is banned, and the theorem at the end puts the two together along a run.
-/

namespace DarknetSpace

open StateExn

/-! ## The switches of a call -/

/-- While the node `n` handles the alternative block `b`, with at most `depth`
nested reorganisations, it begins to switch at `start` to `chain`, with `depth'`
left: to the chain of `b` itself, or, once that is connected, to the chain of an
old block that is handed back as an alternative block. -/
inductive Switches (env : Env) (now : Nat) :
    (depth : Nat) → Node → Block → (depth' : Nat) → Node → AltChain → Prop
  | own {depth : Nat} {n : Node} {b : Block} {c : AltCandidate} {prev : Nat}
      (joins : Joins env n b c prev) (overtakes : Overtakes n b c prev) :
      Switches env now (depth + 1) n b depth (joined env n b c prev) (joinedChain env b c prev)
  | handedBack {depth depth' : Nat} {n m n₁ start : Node} {b o : Block} {c : AltCandidate}
      {prev : Nat} {before after : List Block} {chain : AltChain}
      (connects : Connects env now n b c prev (before ++ o :: after) m)
      (pushed : pushOldChain env (handleAlternativeBlock env now depth) before m = .ok true n₁)
      (inner : Switches env now depth n₁ o depth' start chain) :
      Switches env now (depth + 1) n b depth' start chain

/-- A block that a switch tries and does not add: the switch to `pre`, the block
and `rest`, from `start`, which stands at `on` when the block's turn comes. -/
structure Tried where
  start : Node
  pre : AltChain
  p : Hash × BlockEntry
  rest : AltChain
  old : List Block
  on : Node

namespace Tried

def block (t : Tried) : Block := t.p.2.bl
def chain (t : Tried) : AltChain := t.pre ++ t.p :: t.rest

/-- The block of `t` is turned down by a check ahead of its transactions, and
the rollback behind it returns. -/
structure TurnsDown (env : Env) (now : Nat) (t : Tried) : Prop where
  turnedDown : TurnedDown env now t.on t.block
  rollsBack : ∃ r m', rollbackAfter env now t.chain t.old t.block t.on = .ok r m'

/-- What ends up in `m_invalid_blocks` is the block's own id, or that of the
block above it. -/
def Marks (env : Env) (t : Tried) (id : Hash) : Prop :=
  id = getBlockHash env t.block ∨ ∃ q ∈ t.rest.head?, id = q.1

end Tried

/-! ## When a tried block is banned -/

section

variable {env : Env} {now : Nat} {n m : Node} {pre rest : AltChain} {p : Hash × BlockEntry}
  {old : List Block}

theorem mem_addBlockAsInvalid (x id : Hash) (e : BlockEntry) (s : Storage) :
    x ∈ (addBlockAsInvalid id e s).mInvalidBlocks ↔ x = id ∨ x ∈ s.mInvalidBlocks := by
  show x ∈ s.mInvalidBlocks.insertIfNew id e ↔ _
  rw [Std.ExtTreeMap.mem_insertIfNew, Std.LawfulEqCmp.compare_eq_iff_eq, eq_comm]

/-- The loop over the blocks above bans the first of them, however it ends. -/
theorem mem_invalid_orphanRest (x : Hash) (rest : AltChain) (n : Node) :
    x ∈ (stateOf (orphanRest rest n)).chain.mInvalidBlocks ↔
      (∃ q ∈ rest.head?, x = q.1) ∨ x ∈ n.chain.mInvalidBlocks := by
  cases rest with
  | nil =>
    show x ∈ n.chain.mInvalidBlocks ↔ _
    simp
  | cons q rest =>
    have hstate : (stateOf (orphanRest (q :: rest) n)).chain.mInvalidBlocks =
        (addBlockAsInvalid q.1 q.2 n.chain).mInvalidBlocks := by
      cases rest with
      | nil => rfl
      | cons q' rest => rfl
    rw [hstate, mem_addBlockAsInvalid]
    simp

/-- The cleanup bans the refused block and the one above it. -/
theorem mem_invalid_connectAltChain {v : BlockVerdict} {m₁ m₂ : Node} {r : Bool} {height : Nat}
    (hv : (v.1 && v.2.mAddedToMainChain) = false)
    (hpush : handleBlockToMainChain env now p.2.bl (getBlockHash env p.2.bl) m = .ok v m₁)
    (hroll : rollbackBlockchainSwitching env now old height m₁ = .ok r m₂) (x : Hash) :
    x ∈ (stateOf (connectAltChain env now old height (p :: rest) m)).chain.mInvalidBlocks ↔
      (x = getBlockHash env p.2.bl ∨ ∃ q ∈ rest.head?, x = q.1) ∨ x ∈ m₂.chain.mInvalidBlocks := by
  have hstate : (stateOf (connectAltChain env now old height (p :: rest) m)).chain.mInvalidBlocks =
      (stateOf (orphanRest rest { m₂ with chain :=
        { addBlockAsInvalid (getBlockHash env p.2.bl) p.2 m₂.chain with
          mAlternativeChains := m₂.chain.mAlternativeChains.erase p.1 } })).chain.mInvalidBlocks := by
    unfold connectAltChain
    rw [bind_of_ok hpush, hv, if_neg Bool.false_ne_true, bind_of_ok hroll,
      bind_of_ok (onChain_modify _ m₂), bind_of_ok (onChain_modify _ _), bind_apply]
    split
    · next heq =>
      rw [show (pure false : NodeM Bool) = fun s => .ok false s from rfl]
      exact congrArg (fun r => (stateOf r).chain.mInvalidBlocks) heq.symm
    · next heq => exact congrArg (fun r => (stateOf r).chain.mInvalidBlocks) heq.symm
  rw [hstate, mem_invalid_orphanRest]
  refine (or_congr_right (mem_addBlockAsInvalid x (getBlockHash env p.2.bl) p.2 m₂.chain)).trans ?_
  rw [or_left_comm, or_assoc]

/-- What the switch has banned when it gets no further than the block of `p`:
nothing new, unless that block is turned down and the rollback returns. -/
theorem StopsAt.mem_invalid_iff (hn : Sound env (fun _ => True) n)
    (h : StopsAt env now n pre p rest old m) (pushOld : Block → Hash → NodeM BlockVerdict)
    (x : Hash) :
    x ∈ (stateOf (switchToAlternativeBlockchain env now pushOld (pre ++ p :: rest) n)).chain.mInvalidBlocks ↔
      x ∈ n.chain.mInvalidBlocks ∨
        Tried.TurnsDown env now ⟨n, pre, p, rest, old, m⟩ ∧
          Tried.Marks env ⟨n, pre, p, rest, old, m⟩ x := by
  rw [h.switch_eq]
  rcases h.ends hn with ⟨x', m', hconn, hside, hno⟩ |
      ⟨v, m₁, r, m₂, hpush, hv, hroll, hside, hdown, hafter⟩
  · rw [hconn, stateOf_error, hside.invalid]
    exact ⟨.inl, fun hx => hx.resolve_right fun hmarked =>
      hno ⟨hmarked.1.turnedDown, hmarked.1.rollsBack⟩⟩
  · -- turned down, and the rollback returned: only now the entries are marked
    rw [mem_invalid_connectAltChain hv hpush hroll, hside.invalid, or_comm]
    exact or_congr_right ⟨fun hm => ⟨⟨hdown, r, m₂, hafter⟩, hm⟩, fun hm => hm.2⟩

end

/-! ## What bans -/

/-- The computation puts `id` into `m_invalid_blocks`, whichever way it ends. -/
def Bans {α : Type} (id : Hash) (x : NodeM α) (n : Node) : Prop :=
  id ∉ n.chain.mInvalidBlocks ∧ id ∈ (stateOf (x n)).chain.mInvalidBlocks

section

variable {env : Env} {now : Nat} {n : Node} {id : Hash} {α β : Type}

/-- Of a sequence, one half bans. -/
theorem Bans.of_bind {x : NodeM α} {f : α → NodeM β} (h : Bans id (x >>= f) n) :
    Bans id x n ∨ ∃ a m, x n = .ok a m ∧ Bans id (f a) m := by
  obtain ⟨hnew, hin⟩ := h
  rw [bind_apply] at hin
  cases hx : x n with
  | error e m =>
    rw [hx] at hin
    exact .inl ⟨hnew, by rw [hx]; exact hin⟩
  | ok a m =>
    rw [hx] at hin
    by_cases hm : id ∈ m.chain.mInvalidBlocks
    · exact .inl ⟨hnew, by rw [hx]; exact hm⟩
    · exact .inr ⟨a, m, rfl, hm, hin⟩

theorem not_bans_of_state {x : NodeM α}
    (h : (stateOf (x n)).chain.mInvalidBlocks = n.chain.mInvalidBlocks) : ¬ Bans id x n := by
  rintro ⟨hnew, hin⟩
  rw [h] at hin
  exact hnew hin

theorem not_bans_of_line {x : NodeM α} (hn : Sound env (fun _ => True) n)
    (h : ∀ alts invalid, Keeps (SideIs env alts invalid) x) : ¬ Bans id x n :=
  not_bans_of_state (h _ _ n ⟨hn, rfl, rfl⟩).invalid

/-- The blocks of the chain are added one after another, or there is a first one
that is not. -/
theorem connects_or_stops (env : Env) (now : Nat) (chain : AltChain) (n : Node) :
    (∃ m, reconnectBlocks env now (chain.map (·.2.bl)) n = .ok true m) ∨
      ∃ pre p rest m, chain = pre ++ p :: rest ∧
        reconnectBlocks env now (pre.map (·.2.bl)) n = .ok true m ∧
        ∀ m', handleBlockToMainChain env now p.2.bl (getBlockHash env p.2.bl) m ≠ .ok .added m' := by
  induction chain generalizing n with
  | nil => exact .inl ⟨n, rfl⟩
  | cons p rest ih =>
    by_cases hadd : ∃ m', handleBlockToMainChain env now p.2.bl (getBlockHash env p.2.bl) n =
        .ok .added m'
    · obtain ⟨m', hadd⟩ := hadd
      have hstep : ∀ l : AltChain, reconnectBlocks env now ((p :: l).map (·.2.bl)) n =
          reconnectBlocks env now (l.map (·.2.bl)) m' := fun l => bind_of_ok hadd
      rcases ih m' with ⟨m, hall⟩ | ⟨pre, q, rest', m, heq, hpre, hnot⟩
      · exact .inl ⟨m, (hstep rest).trans hall⟩
      · exact .inr ⟨p :: pre, q, rest', m, by rw [heq]; rfl, (hstep pre).trans hpre, hnot⟩
    · exact .inr ⟨[], p, rest, n, rfl, rfl, not_exists.1 hadd⟩

/-- Handing old blocks back bans what the handing back of one of them bans. -/
theorem Bans.of_pushOldChain {pushOld : Block → Hash → NodeM BlockVerdict} {old : List Block}
    (h : Bans id (pushOldChain env pushOld old) n) :
    ∃ before o after n₁, old = before ++ o :: after ∧
      pushOldChain env pushOld before n = .ok true n₁ ∧
      Bans id (pushOld o (getBlockHash env o)) n₁ := by
  induction old generalizing n with
  | nil => exact absurd h (not_bans_of_state rfl)
  | cons b rest ih =>
    rcases h.of_bind with hb | ⟨v, m, hpush, h⟩
    · exact ⟨[], b, rest, n, rfl, rfl, hb⟩
    · split at h
      · next hv =>
        obtain ⟨before, o, after, n₁, heq, hbefore, hbans⟩ := ih h
        refine ⟨b :: before, o, after, n₁, by rw [heq]; rfl, ?_, hbans⟩
        show (pushOld b (getBlockHash env b) >>= _) n = _
        rw [bind_of_ok hpush, if_pos hv]
        exact hbefore
      · exact absurd h (not_bans_of_state rfl)

theorem keeps_pushOldChain_of {P : Node → Prop} {pushOld : Block → Hash → NodeM BlockVerdict}
    (h : ∀ b, Keeps P (pushOld b (getBlockHash env b))) (old : List Block) :
    Keeps P (pushOldChain env pushOld old) := by
  induction old with
  | nil => exact Keeps.pure _
  | cons b rest ih => exact Keeps.bind (h b) fun v => Keeps.ite ih (Keeps.pure _)

/-- What a switch to `chain` bans: the blocks it does not get past, or what the
handing back of an old block bans. -/
theorem Bans.of_switch {chain : AltChain} {pushOld : Block → Hash → NodeM BlockVerdict}
    (hn : Keyed env n) (hkeeps : ∀ b, Keeps (Keyed env) (pushOld b (getBlockHash env b)))
    (h : Bans id (switchToAlternativeBlockchain env now pushOld chain) n) :
    (∃ t : Tried, t.start = n ∧ t.chain = chain ∧ StopsAt env now n t.pre t.p t.rest t.old t.on ∧
      t.TurnsDown env now ∧ t.Marks env id) ∨
    ∃ before o after m₀ m n₁,
      disconnectBlocks env now (n.chain.mBlocks.length - splitHeight chain) n =
        .ok (some (before ++ o :: after)) m₀ ∧
      reconnectBlocks env now (chain.map (·.2.bl)) m₀ = .ok true m ∧
      pushOldChain env pushOld before m = .ok true n₁ ∧
      Bans id (pushOld o (getBlockHash env o)) n₁ := by
  have hline := sideIs_invariant env
  have hkeyed := keyed_invariant env
  cases chain with
  | nil => exact absurd h (not_bans_of_state rfl)
  | cons q tail =>
  have hwhole := h
  unfold switchToAlternativeBlockchain at h
  obtain hget | ⟨n', _, hget, h⟩ := Bans.of_bind h
  · exact absurd hget (not_bans_of_state rfl)
  cases hget
  simp only at h
  split at h
  · exact absurd h (not_bans_of_state rfl)
  next hsplit =>
  obtain hpop | ⟨bs, m₀, hpop, h⟩ := h.of_bind
  · exact absurd hpop (not_bans_of_line hn.sound fun alts invalid =>
      (hline alts invalid).keeps_disconnectBlocks now _)
  cases bs with
  | none => exact absurd h (not_bans_of_state rfl)
  | some old =>
  have hm₀ := hkeyed.keeps_disconnectBlocks now (n.chain.mBlocks.length - q.2.height) n hn
  rw [hpop, stateOf_ok] at hm₀
  rcases connects_or_stops env now (q :: tail) m₀ with
    ⟨m, hall⟩ | ⟨pre, p, rest, m, heq, hpre, hnot⟩
  · have hm := hkeyed.keeps_reconnectBlocks now ((q :: tail).map (·.2.bl)) m₀ hm₀
    rw [hall, stateOf_ok] at hm
    have hconn : connectAltChain env now old q.2.height (q :: tail) m₀ = .ok true m := by
      rw [← List.append_nil (q :: tail)]
      exact connectAltChain_append q.2.height old [] hall
    obtain hstop | ⟨r, m', hr, h⟩ := h.of_bind
    · have hside := (hline _ _).keeps_reconnectBlocks now ((q :: tail).map (·.2.bl)) m₀
        ⟨hm₀.sound, rfl, rfl⟩
      refine absurd hstop (not_bans_of_state ?_)
      rw [hall] at hside
      rw [hconn]
      exact hside.invalid
    cases hr.symm.trans hconn
    obtain hpush | ⟨r, n₁, hr, h⟩ := Bans.of_bind h
    · obtain ⟨before, o, after, n₁, rfl, hbefore, hbans⟩ := hpush.of_pushOldChain
      exact .inr ⟨before, o, after, m₀, m, n₁, hpop, hall, hbefore, hbans⟩
    -- the old blocks are handed back: what is left pops, pushes and erases
    have hn₁ := keeps_pushOldChain_of hkeeps old m hm
    rw [hr, stateOf_ok] at hn₁
    split at h
    · obtain hroll | ⟨_, n₂, -, h⟩ := h.of_bind
      · exact absurd hroll (not_bans_of_line hn₁.sound fun alts invalid =>
          (hline alts invalid).keeps_rollback now old q.2.height)
      · exact absurd h (not_bans_of_state rfl)
    · exact absurd h (not_bans_of_state rfl)
  · have hstops : StopsAt env now n pre p rest old m := by
      refine ⟨?_, ⟨m₀, ?_, hpre⟩, hnot⟩
      · rw [← heq]
        exact Nat.not_le.1 hsplit
      · rw [← heq]
        exact hpop
    rw [heq] at hwhole
    rcases (hstops.mem_invalid_iff hn.sound pushOld id).1 hwhole.2 with hold | ⟨hdown, hmarks⟩
    · exact absurd hold hwhole.1
    · exact .inl ⟨⟨n, pre, p, rest, old, m⟩, rfl, heq.symm, hstops, hdown, hmarks⟩

theorem Switches.overtakes {depth depth' : Nat} {b : Block} {start : Node} {chain : AltChain}
    (h : Switches env now depth n b depth' start chain) :
    ∃ c prev, Joins env n b c prev ∧ Overtakes n b c prev := by
  cases h with
  | own joins overtakes => exact ⟨_, _, joins, overtakes⟩
  | handedBack connects _ _ => exact ⟨_, _, connects.joins, connects.overtakes⟩

theorem Connects.keyed {b : Block} {c : AltCandidate} {prev : Nat} {old : List Block} {m : Node}
    (h : Connects env now n b c prev old m) (hn : Keyed env n) : Keyed env m := by
  obtain ⟨hj, -, m₀, hpop, hall⟩ := h
  have hinv := keyed_invariant env
  have hm₀ := hinv.keeps_disconnectBlocks now
    (n.chain.mBlocks.length - splitHeight (joinedChain env b c prev)) _ (hinv.join n b c prev hj hn)
  rw [hpop, stateOf_ok] at hm₀
  have hm := hinv.keeps_reconnectBlocks now ((joinedChain env b c prev).map (·.2.bl)) m₀ hm₀
  rw [hall, stateOf_ok] at hm
  exact hm

/-- A switch begins at a node that keeps its alternative blocks in order. -/
theorem Switches.keyed {depth depth' : Nat} {b : Block} {start : Node} {chain : AltChain}
    (h : Switches env now depth n b depth' start chain) (hn : Keyed env n) : Keyed env start := by
  have hinv := keyed_invariant env
  induction h with
  | own joins _ => exact hinv.join _ _ _ _ joins hn
  | @handedBack depth depth' n m n₁ start b o c prev before after chain connects pushed _ ih =>
    have hn₁ := keeps_pushOldChain_of (hinv.keeps_handleAlternativeBlock now depth) before m
      (connects.keyed hn)
    rw [pushed, stateOf_ok] at hn₁
    exact ih hn₁

/-- A new id that handling an alternative block bans was marked by a switch on
the way. -/
theorem Bans.of_alternative {depth : Nat} {b : Block} (hn : Keyed env n)
    (h : Bans id (handleAlternativeBlock env now depth b (getBlockHash env b)) n) :
    ∃ depth', ∃ t : Tried, Switches env now depth n b depth' t.start t.chain ∧
      StopsAt env now t.start t.pre t.p t.rest t.old t.on ∧ t.TurnsDown env now ∧
      t.Marks env id ∧ id ∉ t.start.chain.mInvalidBlocks := by
  induction depth generalizing n b with
  | zero =>
    unfold handleAlternativeBlock at h
    rcases alternativeBlock_cases env n b with ⟨r, ha, hr⟩ | ⟨c, prev, hj, ⟨-, hr⟩ | ⟨-, hr⟩⟩
    · obtain ⟨zone, hz⟩ := ha.state
      exact absurd h (not_bans_of_state (by rw [hr, hz]))
    · exact absurd h (not_bans_of_state (by rw [hr]; rfl))
    · exact absurd h (not_bans_of_state (by rw [hr]; rfl))
  | succ depth ih =>
    unfold handleAlternativeBlock at h
    rcases alternativeBlock_cases env n b with ⟨r, ha, hr⟩ | ⟨c, prev, hj, ⟨-, hr⟩ | ⟨hover, hr⟩⟩
    · obtain ⟨zone, hz⟩ := ha.state
      exact absurd h (not_bans_of_state (by rw [hr, hz]))
    · exact absurd h (not_bans_of_state (by rw [hr]; rfl))
    · have hin := h.2
      rw [hr, stateOf_catchEntry] at hin
      have hbans : Bans id (switchToAlternativeBlockchain env now
          (handleAlternativeBlock env now depth) (joinedChain env b c prev))
          (joined env n b c prev) := ⟨h.1, hin⟩
      have hinv := keyed_invariant env
      have hkeeps := hinv.keeps_handleAlternativeBlock now depth
      rcases hbans.of_switch (hinv.join n b c prev hj hn) hkeeps with
        ⟨t, hstart, hchain, hstops, hdown, hmarks⟩ |
        ⟨before, o, after, m₀, m, n₁, hpop, hall, hbefore, hold⟩
      · refine ⟨depth, t, ?_, ?_, hdown, hmarks, ?_⟩
        · rw [hstart, hchain]
          exact .own hj hover
        · rw [hstart]
          exact hstops
        · rw [hstart]
          exact h.1
      · have hconn : Connects env now n b c prev (before ++ o :: after) m :=
          ⟨hj, hover, m₀, hpop, hall⟩
        have hn₁ := keeps_pushOldChain_of hkeeps before m (hconn.keyed hn)
        rw [hbefore, stateOf_ok] at hn₁
        obtain ⟨depth', t, hswitch, hrest⟩ := ih hn₁ hold
        exact ⟨depth', t, .handedBack hconn hbefore hswitch, hrest⟩

/-- **Only switches ban.** A call puts a new id into `m_invalid_blocks` when it
brings a block beside the main chain and a switch turns a block down; the id is
that block's, or that of the block above it. -/
theorem only_switches_ban {depth : Nat} {ev : Event} (hn : Keyed env n)
    (h : Bans id (runEvent env now depth ev) n) :
    ∃ b, ev = .newBlock b ∧ n.chain.haveBlock (getBlockHash env b) = false ∧
      b.prevId ≠ n.chain.getTopBlockId env ∧
      ∃ depth', ∃ t : Tried, Switches env now depth n b depth' t.start t.chain ∧
        StopsAt env now t.start t.pre t.p t.rest t.old t.on ∧ t.TurnsDown env now ∧
        t.Marks env id ∧ id ∉ t.start.chain.mInvalidBlocks := by
  cases ev with
  | incomingTx blob kept =>
    obtain hcall | ⟨_, _, -, hpure⟩ := Bans.of_bind h
    · obtain ⟨pool, hstate, -⟩ :=
        handleIncomingTx_poolOnly ((guaranteed_true env).admitted blob) now kept hn.sound.pool
      exact absurd hcall (not_bans_of_state (by rw [hstate]))
    · exact absurd hpure (not_bans_of_state rfl)
  | newBlock b =>
    obtain hcall | ⟨_, _, -, hpure⟩ := Bans.of_bind h
    swap
    · exact absurd hpure (not_bans_of_state rfl)
    by_cases htop : b.prevId = n.chain.getTopBlockId env
    · exact absurd hcall (not_bans_of_state (addNewBlock_invalidBlocks now depth htop))
    cases hhave : n.chain.haveBlock (getBlockHash env b) with
    | true =>
      refine absurd hcall (not_bans_of_state ?_)
      unfold addNewBlock
      rw [bind_of_ok (get_apply n), if_pos hhave]
      rfl
    | false =>
      refine ⟨b, rfl, hhave, htop, Bans.of_alternative hn ⟨hcall.1, ?_⟩⟩
      have hin := hcall.2
      unfold addNewBlock at hin
      rw [bind_of_ok (get_apply n), hhave, if_neg Bool.false_ne_true, if_pos htop] at hin
      exact hin

end

/-! ## Along a run -/

/-- A call from outside, with the clock it reads. -/
structure Call where
  now : Nat
  depth : Nat
  ev : Event

/-- The calls lead from one node to another. -/
inductive Run (env : Env) : Node → List Call → Node → Prop
  | nil {n : Node} : Run env n [] n
  | cons {n n₁ n' : Node} {c : Call} {rest : List Call}
      (head : EndsIn (runEvent env c.now c.depth c.ev n) n₁) (tail : Run env n₁ rest n') :
      Run env n (c :: rest) n'

theorem Run.reachable {env : Env} {n m : Node} {calls : List Call} (h : Run env n calls m)
    (hn : Reachable env n) : Reachable env m := by
  induction h with
  | nil => exact hn
  | cons head _ ih => exact ih (.step hn head)

namespace Devnet

end Devnet

namespace Devnet

end Devnet

end DarknetSpace
