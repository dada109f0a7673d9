import DarknetSpace.Core.AltBranch
import DarknetSpace.Core.Blacklist
import DarknetSpace.Core.Zone

/-!
# The side chains

`m_alternative_chains` and `m_invalid_blocks` are written by
`handle_alternative_block` and by the bookkeeping of
`switch_to_alternative_blockchain` only; the pushes and pops in between leave
them alone. The rules of this file split an argument about them along that line,
and say once what `handle_alternative_block` does with a block: it answers
without a trace, keeps the block, or keeps it and switches to its chain.

`SideInvariant` is for properties of both containers, with one clause for each place
that writes them. `Keyed` is the first of them: every alternative block is kept under
its own id. And `alternativeBlock_cases` is the inversion of the whole function, from
which everything about its outcomes is proved.
-/

namespace DarknetSpace

open StateExn

/-! ## Pushes and pops only -/

/-- A property that pushes and pops keep, whichever way they end. -/
structure LineInvariant (env : Env) (P : Node → Prop) : Prop where
  push : ∀ now bl, Keeps P (handleBlockToMainChain env now bl (getBlockHash env bl))
  pop : ∀ now, Keeps P (popBlockFromBlockchain env now)

namespace LineInvariant

variable {env : Env} {P : Node → Prop} (h : LineInvariant env P)

include h

theorem keeps_disconnectBlocks (now count : Nat) : Keeps P (disconnectBlocks env now count) := by
  induction count with
  | zero => exact Keeps.pure _
  | succ count ih =>
    refine Keeps.bind (Keeps.reads _) fun top => Keeps.bind (h.pop now) fun r =>
      Keeps.ite (Keeps.pure _) (Keeps.bind ih fun bs => ?_)
    cases bs with
    | none => exact Keeps.pure _
    | some bs => exact Keeps.pure _

theorem keeps_reconnectBlocks (now : Nat) (bs : List Block) :
    Keeps P (reconnectBlocks env now bs) := by
  induction bs with
  | nil => exact Keeps.pure _
  | cons b rest ih => exact Keeps.bind (h.push now b) fun v => Keeps.ite ih (Keeps.pure _)

theorem keeps_rollback (now : Nat) (original : List Block) (height : Nat) :
    Keeps P (rollbackBlockchainSwitching env now original height) := by
  refine Keeps.bind Keeps.get fun n => Keeps.bind (h.keeps_disconnectBlocks now _) fun bs => ?_
  cases bs with
  | none => exact Keeps.pure _
  | some bs => exact h.keeps_reconnectBlocks now original

end LineInvariant

/-- The side chains of a sound node. -/
structure SideIs (env : Env) (alts invalid : Map Hash BlockEntry) (n : Node) : Prop where
  sound : Sound env (fun _ => True) n
  alts : n.chain.mAlternativeChains = alts
  invalid : n.chain.mInvalidBlocks = invalid

/-- Pushes and pops do not write the side chains. -/
theorem sideIs_invariant (env : Env) (alts invalid : Map Hash BlockEntry) :
    LineInvariant env (SideIs env alts invalid) := by
  refine ⟨fun now bl n hn => ⟨?_, ?_, ?_⟩, fun now n hn => ⟨?_, ?_, ?_⟩⟩
  · have ho := handleBlockToMainChain_addedOrQuiet hn.sound now bl (getBlockHash env bl)
    cases hr : handleBlockToMainChain env now bl (getBlockHash env bl) n with
    | error e m =>
      rw [hr] at ho
      exact hn.sound.of_quiet ho
    | ok v m =>
      rw [hr] at ho
      rcases ho with rfl | hq
      · obtain ⟨c⟩ := handleBlockToMainChain_added hr
        exact c.sound hn.sound
      · exact hn.sound.of_quiet hq
  · rcases handleBlockToMainChain_sameBeside env now bl (getBlockHash env bl) hn.sound.sync with hs | hs
    · exact hs.alts.trans hn.alts
    · exact hs.alts.trans hn.alts
  · exact (handleBlockToMainChain_invalidBlocks env now bl (getBlockHash env bl) n).trans hn.invalid
  · have ho := popBlock_shortenedOrQuiet hn.sound now
    cases hr : popBlockFromBlockchain env now n with
    | error e m =>
      rw [hr] at ho
      exact hn.sound.of_quiet ho
    | ok r m =>
      rw [hr] at ho
      cases r with
      | true => exact ho.sound
      | false => exact hn.sound.of_quiet ho
  · have := congrArg Storage.mAlternativeChains (keeps_side_popBlock env now n.chain.side n rfl)
    exact Eq.trans this hn.alts
  · have := congrArg Storage.mInvalidBlocks (keeps_side_popBlock env now n.chain.side n rfl)
    exact Eq.trans this hn.invalid

/-! ## The chain that is handed over -/

/-- The blocks of the chain are kept alternative blocks, each under its own id. -/
structure Handed (env : Env) (n : Node) (alt : AltChain) : Prop where
  kept : ∀ p ∈ alt, n.chain.mAlternativeChains[p.1]? = some p.2
  ids : ∀ p ∈ alt, p.1 = getBlockHash env p.2.bl
  nodup : (alt.map (·.1)).Nodup

/-- A way back to the main chain does not depend on how many steps it may take. -/
theorem altChainTo_fuel {alts : Map Hash BlockEntry} {fuel fuel' : Nat} {id : Hash}
    {chain chain' : AltChain} (h : altChainTo alts fuel id = .ok chain)
    (h' : altChainTo alts fuel' id = .ok chain') : chain = chain' := by
  induction fuel generalizing fuel' id chain chain' with
  | zero => cases h
  | succ fuel ih =>
    cases fuel' with
    | zero => cases h'
    | succ fuel' =>
      unfold altChainTo at h h'
      cases he : alts[id]? with
      | none =>
        rw [he] at h h'
        cases h
        cases h'
        rfl
      | some e =>
        rw [he] at h h'
        simp only at h h'
        cases hb : altChainTo alts fuel e.bl.prevId with
        | error x =>
          rw [hb] at h
          cases h
        | ok below =>
          cases hb' : altChainTo alts fuel' e.bl.prevId with
          | error x =>
            rw [hb'] at h'
            cases h'
          | ok below' =>
            rw [hb] at h
            rw [hb'] at h'
            cases h
            cases h'
            rw [ih hb hb']

/-- The way back of every block on it is a part of it. -/
theorem altChainTo_below {alts : Map Hash BlockEntry} {fuel : Nat} {id : Hash} {chain : AltChain}
    (h : altChainTo alts fuel id = .ok chain) {i : Nat} {p : Hash × BlockEntry}
    (hp : chain[i]? = some p) :
    alts[p.1]? = some p.2 ∧ ∃ fuel', altChainTo alts fuel' p.1 = .ok (chain.take (i + 1)) := by
  induction fuel generalizing id chain with
  | zero => cases h
  | succ fuel ih =>
    have hself := h
    unfold altChainTo at h
    cases he : alts[id]? with
    | none =>
      rw [he] at h
      cases h
      cases hp
    | some e =>
      rw [he] at h
      simp only at h
      cases hb : altChainTo alts fuel e.bl.prevId with
      | error x =>
        rw [hb] at h
        cases h
      | ok below =>
        rw [hb] at h
        cases h
        by_cases hlt : i < below.length
        · rw [List.getElem?_append_left hlt] at hp
          obtain ⟨hkept, fuel', hf⟩ := ih hb hp
          refine ⟨hkept, fuel', ?_⟩
          rw [List.take_append_of_le_length (by omega)]
          exact hf
        · rw [List.getElem?_append_right (by omega)] at hp
          have hi : i - below.length = 0 := by
            have := (List.getElem?_eq_some_iff.1 hp).1
            rw [List.length_singleton] at this
            omega
          rw [hi] at hp
          cases hp
          refine ⟨he, fuel + 1, ?_⟩
          rw [List.take_of_length_le (by simp; omega)]
          exact hself

/-- A way that ends does not pass a block twice. -/
theorem altChainTo_nodup {alts : Map Hash BlockEntry} {fuel : Nat} {id : Hash} {chain : AltChain}
    (h : altChainTo alts fuel id = .ok chain) : (chain.map (·.1)).Nodup := by
  rw [List.nodup_iff_getElem?_ne_getElem?]
  intro i j hij hj heq
  rw [List.length_map] at hj
  obtain ⟨p, hp⟩ : ∃ p, chain[i]? = some p := ⟨_, List.getElem?_eq_getElem (by omega)⟩
  obtain ⟨q, hq⟩ : ∃ q, chain[j]? = some q := ⟨_, List.getElem?_eq_getElem hj⟩
  rw [List.getElem?_map, List.getElem?_map, hp, hq] at heq
  have hpq : p.1 = q.1 := Option.some.inj heq
  obtain ⟨_, _, hf⟩ := altChainTo_below h hp
  obtain ⟨_, _, hf'⟩ := altChainTo_below h hq
  rw [hpq] at hf
  have hlen := congrArg List.length (altChainTo_fuel hf hf')
  rw [List.length_take, List.length_take] at hlen
  omega

/-! ## What happens to an alternative block -/

/-- A check of a candidate that answers refuses. -/
theorem judgeAt_refuses {env : Env} {s : Storage} {b : Block} {altChain : AltChain} {split : Nat}
    {timestamps : List UInt64} {v : BlockVerdict}
    (h : judgeAt env s b altChain split timestamps = .ok (.inl v)) : v.1 = false := by
  unfold judgeAt at h
  simp only at h
  obtain ⟨pad, hpad, h⟩ := bind_eq_ok_except.1 h
  split at h
  · cases h
    rfl
  · split at h
    · cases h
      rfl
    · obtain ⟨base, hbase, h⟩ := bind_eq_ok_except.1 h
      split at h
      · cases h
        rfl
      · obtain ⟨main, hmain, h⟩ := bind_eq_ok_except.1 h
        cases main with
        | none =>
          cases h
          rfl
        | some main =>
          obtain ⟨difficulty, hdiff, h⟩ := bind_eq_ok_except.1 h
          split at h
          · cases h
            rfl
          · split at h
            · cases h
              rfl
            · cases h

/-- The one answer that is not a refusal: nobody knows the block below. -/
theorem altCandidate_answers {env : Env} {s : Storage} {b : Block} {v : BlockVerdict}
    (h : altCandidate env s b = .ok (.inl v)) :
    v.1 = false ∨ v = .orphaned ∧ s.mAlternativeChains[b.prevId]? = none ∧
      indexHeight s.mBlocksIndex b.prevId = none := by
  unfold altCandidate at h
  simp only at h
  split at h
  · next hunknown =>
    cases h
    exact .inr ⟨rfl, Option.isNone_iff_eq_none.1 hunknown.1, Option.isNone_iff_eq_none.1 hunknown.2⟩
  · left
    obtain ⟨altChain, hchain, h⟩ := bind_eq_ok_except.1 h
    cases altChain with
    | nil =>
      cases hi : indexHeight s.mBlocksIndex b.prevId with
      | none =>
        rw [hi] at h
        cases h
        rfl
      | some k =>
        rw [hi] at h
        have hts : ∃ ts, judgeAt env s b [] (k + 1) ts = .ok (.inl v) := ⟨_, h⟩
        obtain ⟨ts, hj⟩ := hts
        exact judgeAt_refuses hj
    | cons p rest =>
      simp only [List.map_cons] at h
      split at h
      · cases h
        rfl
      · obtain ⟨before, hbefore, h⟩ := bind_eq_ok_except.1 h
        split at h
        · cases h
          rfl
        · have hts : ∃ ts, judgeAt env s b (p :: rest) p.2.height ts = .ok (.inl v) := ⟨_, h⟩
          obtain ⟨ts, hj⟩ := hts
          exact judgeAt_refuses hj

/-- No check of a candidate answers "kept". -/
theorem altCandidate_ne_kept {env : Env} {s : Storage} {b : Block} :
    altCandidate env s b ≠ .ok (.inl .kept) := by
  intro h
  rcases altCandidate_answers h with hno | ⟨horphan, -⟩
  · cases hno
  · have := congrArg (·.2.mMarkedAsOrphaned) horphan
    cases this

/-- The checks `b` has to pass to be kept, and what they find out. -/
structure Joins (env : Env) (n : Node) (b : Block) (c : AltCandidate) (prev : Nat) : Prop where
  passed : n.chain.mCheckpoints.isHeightPassedZone (getBlockHeight b).toNat
    (n.chain.getCurrentBlockchainHeight - 1) = false
  candidate : altCandidate env n.chain b = .ok (.inr c)
  form : checkBlockForm (n.chain.setCheckpointZone c.height) b (getBlockHash env b) c.height = true
  prev : altPrevDifficulty n.chain b c.altChain = .ok prev
  new : n.chain.mAlternativeChains.contains (getBlockHash env b) = false

/-- The node that has kept `b`. -/
def joined (env : Env) (n : Node) (b : Block) (c : AltCandidate) (prev : Nat) : Node :=
  { n with chain := { n.chain.setCheckpointZone c.height with
    mAlternativeChains :=
      n.chain.mAlternativeChains.insert (getBlockHash env b) (altBlockEntry b c prev) } }

/-- The chain that ends in `b`. -/
def joinedChain (env : Env) (b : Block) (c : AltCandidate) (prev : Nat) : AltChain :=
  c.altChain ++ [(getBlockHash env b, altBlockEntry b c prev)]

/-- The block's chain is heavier than the main chain. -/
def Overtakes (n : Node) (b : Block) (c : AltCandidate) (prev : Nat) : Prop :=
  cumulativeDifficulty n.chain.mBlocks < (altBlockEntry b c prev).cumulativeDifficulty

instance (n : Node) (b : Block) (c : AltCandidate) (prev : Nat) : Decidable (Overtakes n b c prev) :=
  inferInstanceAs (Decidable (_ < _))

/-- The checks find out one thing. -/
theorem Joins.unique {env : Env} {n : Node} {b : Block} {c c' : AltCandidate} {prev prev' : Nat}
    (h : Joins env n b c prev) (h' : Joins env n b c' prev') : c = c' ∧ prev = prev' := by
  have hc := h.candidate.symm.trans h'.candidate
  cases hc
  have hp := h.prev.symm.trans h'.prev
  cases hp
  exact ⟨rfl, rfl⟩

/-- The block does not join, and the result leaves nothing behind but the
checkpoint-zone flag. -/
structure Answered (env : Env) (n : Node) (b : Block) (r : EStateM.Result Exn Node BlockVerdict) :
    Prop where
  state : ∃ zone, stateOf r = { n with chain := { n.chain with mIsInCheckpointZone := zone } }
  not_kept : ∀ m, r ≠ .ok .kept m
  not_joins : ∀ c prev, ¬ Joins env n b c prev

theorem alternativeBlockBody_cases {env : Env} {n : Node} {b : Block}
    (hpassed : n.chain.mCheckpoints.isHeightPassedZone (getBlockHeight b).toNat
      (n.chain.getCurrentBlockchainHeight - 1) = false) :
    (∃ r, Answered env n b r ∧ ∀ switch, alternativeBlockBody env switch b (getBlockHash env b) n = r) ∨
      ∃ c prev, Joins env n b c prev ∧
        ((¬ Overtakes n b c prev ∧ ∀ switch,
            alternativeBlockBody env switch b (getBlockHash env b) n =
              .ok .kept (joined env n b c prev)) ∨
          (Overtakes n b c prev ∧ ∀ switch,
            alternativeBlockBody env switch b (getBlockHash env b) n =
              (switch (joinedChain env b c prev) >>= fun r =>
                pure (if r then .added else .failed)) (joined env n b c prev))) := by
  cases hc : altCandidate env n.chain b with
  | error e =>
    refine .inl ⟨.error e n, ⟨⟨_, rfl⟩, (fun m h => by cases h), fun c prev hj => ?_⟩, fun switch => ?_⟩
    · have := hc.symm.trans hj.candidate
      cases this
    · exact bind_of_error (readChain_of_error hc)
  | ok v =>
    cases v with
    | inl v =>
      have hread : readChain (fun s => altCandidate env s b) n = .ok (.inl v) n := readChain_of_ok hc
      refine .inl ⟨.ok v n, ⟨⟨_, rfl⟩, fun m h => ?_, fun c prev hj => ?_⟩, fun switch => ?_⟩
      · cases h
        exact altCandidate_ne_kept hc
      · have := hc.symm.trans hj.candidate
        cases this
      · unfold alternativeBlockBody
        rw [bind_of_ok hread]
        rfl
    | inr c =>
      have hread : ∀ switch, alternativeBlockBody env switch b (getBlockHash env b) n =
          keepAlternativeBlock switch b (getBlockHash env b) c n := by
        intro switch
        have hread : readChain (fun s => altCandidate env s b) n = .ok (.inr c) n :=
          readChain_of_ok hc
        unfold alternativeBlockBody
        rw [bind_of_ok hread]
      simp only [hread]
      -- the candidate is computed from the state, so there is only one it can join with
      have hsame : ∀ {c' prev}, Joins env n b c' prev → c' = c := by
        intro c' prev hj
        have := hc.symm.trans hj.candidate
        cases this
        rfl
      by_cases hform : checkBlockForm (n.chain.setCheckpointZone c.height) b (getBlockHash env b)
          c.height = true
      · cases hprev : altPrevDifficulty n.chain b c.altChain with
        | error e =>
          refine .inl ⟨.error e { n with chain := n.chain.setCheckpointZone c.height },
            ⟨⟨_, rfl⟩, (fun m h => by cases h), fun c' prev hj => ?_⟩, fun switch => ?_⟩
          · cases hsame hj
            have := hprev.symm.trans hj.prev
            cases this
          · unfold keepAlternativeBlock
            rw [bind_of_ok (onChain_modify _ n), bind_of_ok (get_apply _), if_neg (not_not.2 hform)]
            exact bind_of_error (readChain_of_error hprev)
        | ok prev =>
          have hprev' : readChain (fun s => altPrevDifficulty s b c.altChain)
              { n with chain := n.chain.setCheckpointZone c.height } =
                .ok prev { n with chain := n.chain.setCheckpointZone c.height } :=
            readChain_of_ok hprev
          cases hnew : n.chain.mAlternativeChains.contains (getBlockHash env b) with
          | true =>
            refine .inl ⟨.ok .refused { n with chain := n.chain.setCheckpointZone c.height },
              ⟨⟨_, rfl⟩, (fun m h => by cases h), fun c' prev' hj => ?_⟩, fun switch => ?_⟩
            · have := hnew.symm.trans hj.new
              cases this
            · unfold keepAlternativeBlock
              rw [bind_of_ok (onChain_modify _ n), bind_of_ok (get_apply _),
                if_neg (not_not.2 hform), bind_of_ok hprev']
              exact congrFun (if_pos hnew) _
          | false =>
            -- what is left of the body is the question whether it overtakes, whichever way there
            -- is to switch
            have hkeep : ∀ switch, keepAlternativeBlock switch b (getBlockHash env b) c n =
                (if Overtakes n b c prev then
                  switch (joinedChain env b c prev) >>= fun r =>
                    pure (if r then BlockVerdict.added else .failed)
                else pure .kept) (joined env n b c prev) := by
              intro switch
              unfold keepAlternativeBlock
              rw [bind_of_ok (onChain_modify _ n), bind_of_ok (get_apply _),
                if_neg (not_not.2 hform), bind_of_ok hprev']
              have hold : ¬ ({ n with chain := n.chain.setCheckpointZone c.height } :
                  Node).chain.mAlternativeChains.contains (getBlockHash env b) = true := by
                intro hc
                have := hnew.symm.trans hc
                cases this
              simp only
              rw [if_neg hold, bind_of_ok (onChain_modify _ _)]
              rfl
            refine .inr ⟨c, prev, ⟨hpassed, hc, hform, hprev, hnew⟩, ?_⟩
            by_cases hover : Overtakes n b c prev
            · refine .inr ⟨hover, fun switch => ?_⟩
              rw [hkeep, if_pos hover]
            · refine .inl ⟨hover, fun switch => ?_⟩
              rw [hkeep, if_neg hover]
              rfl
      · refine .inl ⟨.ok .failed { n with chain := n.chain.setCheckpointZone c.height },
          ⟨⟨_, rfl⟩, (fun m h => by cases h), fun c' prev hj => ?_⟩, fun switch => ?_⟩
        · cases hsame hj
          exact hform hj.form
        · unfold keepAlternativeBlock
          rw [bind_of_ok (onChain_modify _ n), bind_of_ok (get_apply _), if_pos hform]
          rfl

theorem Answered.catchEntry {env : Env} {n : Node} {b : Block}
    {r : EStateM.Result Exn Node BlockVerdict} (h : Answered env n b r) :
    Answered env n b (catchEntry (fun _ => r) n) := by
  cases r with
  | ok v m => exact h
  | error e m =>
    cases e with
    | indexOverflow => exact ⟨h.state, (fun m h => by cases h), h.not_joins⟩
    | undefinedBehaviour => exact h
    | endless => exact h

/-- **What `handle_alternative_block` does**: it answers, with nothing but the
checkpoint-zone flag touched; or it keeps the block; or it keeps the block and
switches. Only the last depends on how switching is done. -/
theorem alternativeBlock_cases (env : Env) (n : Node) (b : Block) :
    (∃ r, Answered env n b r ∧ ∀ switch, alternativeBlock env switch b (getBlockHash env b) n = r) ∨
      ∃ c prev, Joins env n b c prev ∧
        ((¬ Overtakes n b c prev ∧ ∀ switch,
            alternativeBlock env switch b (getBlockHash env b) n =
              .ok .kept (joined env n b c prev)) ∨
          (Overtakes n b c prev ∧ ∀ switch,
            alternativeBlock env switch b (getBlockHash env b) n =
              catchEntry (switch (joinedChain env b c prev) >>= fun r =>
                pure (if r then .added else .failed)) (joined env n b c prev))) := by
  cases hpassed : n.chain.mCheckpoints.isHeightPassedZone (getBlockHeight b).toNat
      (n.chain.getCurrentBlockchainHeight - 1) with
  | true =>
    refine .inl ⟨.ok .failed n, ⟨⟨_, rfl⟩, (fun m h => by cases h), fun c prev hj => ?_⟩,
      fun switch => ?_⟩
    · have := hpassed.symm.trans hj.passed
      cases this
    · unfold alternativeBlock
      rw [bind_of_ok (get_apply n), if_pos hpassed]
      rfl
  | false =>
    have hcatch : ∀ switch, alternativeBlock env switch b (getBlockHash env b) n =
        catchEntry (fun _ => alternativeBlockBody env switch b (getBlockHash env b) n) n := by
      intro switch
      unfold alternativeBlock
      rw [bind_of_ok (get_apply n), if_neg (by rw [hpassed]; exact Bool.false_ne_true)]
      rfl
    simp only [hcatch]
    rcases alternativeBlockBody_cases hpassed with ⟨r, ha, hr⟩ | ⟨c, prev, hj, ⟨hover, hr⟩ | ⟨hover, hr⟩⟩
    · exact .inl ⟨_, ha.catchEntry, fun switch => by rw [hr]⟩
    · refine .inr ⟨c, prev, hj, .inl ⟨hover, fun switch => ?_⟩⟩
      rw [hr]
      rfl
    · refine .inr ⟨c, prev, hj, .inr ⟨hover, fun switch => ?_⟩⟩
      rw [hr]
      rfl

/-- A block that joins and overtakes is handed to the switch. -/
theorem Joins.switches {env : Env} {n : Node} {b : Block} {c : AltCandidate} {prev : Nat}
    (h : Joins env n b c prev) (hover : Overtakes n b c prev) (switch : AltChain → NodeM Bool) :
    alternativeBlock env switch b (getBlockHash env b) n =
      catchEntry (switch (joinedChain env b c prev) >>= fun r =>
        pure (if r then .added else .failed)) (joined env n b c prev) := by
  rcases alternativeBlock_cases env n b with ⟨r, ha, -⟩ | ⟨c', prev', hj, ⟨hnot, -⟩ | ⟨-, hr⟩⟩
  · exact absurd h (ha.not_joins c prev)
  · obtain ⟨rfl, rfl⟩ := h.unique hj
    exact absurd hover hnot
  · obtain ⟨rfl, rfl⟩ := h.unique hj
    exact hr switch

/-- What a node answers without a reorganisation it answers at any depth. -/
theorem handleAlternativeBlock_of_zero {env : Env} {now : Nat} {n m : Node} {b : Block}
    {v : BlockVerdict}
    (h : handleAlternativeBlock env now 0 b (getBlockHash env b) n = .ok v m) (depth : Nat) :
    handleAlternativeBlock env now depth b (getBlockHash env b) n = .ok v m := by
  have hany : ∀ switch, alternativeBlock env switch b (getBlockHash env b) n = .ok v m := by
    intro switch
    unfold handleAlternativeBlock at h
    rcases alternativeBlock_cases env n b with ⟨r, -, hr⟩ | ⟨c, prev, -, ⟨-, hr⟩ | ⟨-, hr⟩⟩
    · rw [hr] at h ⊢
      exact h
    · rw [hr] at h ⊢
      exact h
    · rw [hr] at h
      cases h
  cases depth with
  | zero => exact hany _
  | succ depth => exact hany _

/-! ## Invariants of the side chains -/

/-- A property that pushes, pops and the bookkeeping of the side chains keep. -/
structure SideInvariant (env : Env) (P : Node → Prop) : Prop extends LineInvariant env P where
  zone : ∀ n zone, P n → P { n with chain := { n.chain with mIsInCheckpointZone := zone } }
  invalid : ∀ n id e, P n → P { n with chain := addBlockAsInvalid id e n.chain }
  erase : ∀ n id, P n → P { n with chain :=
    { n.chain with mAlternativeChains := n.chain.mAlternativeChains.erase id } }
  join : ∀ n b c prev, Joins env n b c prev → P n → P (joined env n b c prev)

namespace SideInvariant

variable {env : Env} {P : Node → Prop} (h : SideInvariant env P)

include h

theorem keeps_erase (id : Hash) : Keeps P (onChain (modify fun s =>
    { s with mAlternativeChains := s.mAlternativeChains.erase id })) :=
  fun n hn => h.erase n id hn

theorem keeps_invalid (id : Hash) (e : BlockEntry) :
    Keeps P (onChain (modify (addBlockAsInvalid id e))) :=
  fun n hn => h.invalid n id e hn

theorem keeps_orphanRest (rest : AltChain) : Keeps P (orphanRest rest) := by
  cases rest with
  | nil => exact Keeps.pure _
  | cons q rest =>
    exact Keeps.bind (h.keeps_invalid q.1 q.2) fun _ =>
      Keeps.bind (h.keeps_erase q.1) fun _ => Keeps.ite (Keeps.pure _) (Keeps.throw _)

theorem keeps_connectAltChain (now : Nat) (old : List Block) (height : Nat) (chain : AltChain) :
    Keeps P (connectAltChain env now old height chain) := by
  induction chain with
  | nil => exact Keeps.pure _
  | cons p rest ih =>
    refine Keeps.bind (h.push now p.2.bl) fun v => Keeps.ite ih ?_
    exact Keeps.bind (h.keeps_rollback now old height) fun _ =>
      Keeps.bind (h.keeps_invalid _ p.2) fun _ => Keeps.bind (h.keeps_erase p.1) fun _ =>
        Keeps.bind (h.keeps_orphanRest rest) fun _ => Keeps.pure _

theorem keeps_eraseAltChain (chain : AltChain) :
    Keeps P (onChain (modify (eraseAltChain chain))) := by
  intro n hn
  show P { n with chain := eraseAltChain chain n.chain }
  induction chain generalizing n with
  | nil => exact hn
  | cons p rest ih => exact ih _ (h.erase n p.1 hn)

theorem keeps_switch {pushOld : Block → Hash → NodeM BlockVerdict}
    (hpush : ∀ b, Keeps P (pushOld b (getBlockHash env b))) (now : Nat) (chain : AltChain) :
    Keeps P (switchToAlternativeBlockchain env now pushOld chain) := by
  have old : ∀ bs, Keeps P (pushOldChain env pushOld bs) := by
    intro bs
    induction bs with
    | nil => exact Keeps.pure _
    | cons b rest ih => exact Keeps.bind (hpush b) fun v => Keeps.ite ih (Keeps.pure _)
  cases chain with
  | nil => exact Keeps.pure _
  | cons p rest =>
    refine Keeps.bind Keeps.get fun n => Keeps.ite (Keeps.pure _) ?_
    refine Keeps.bind (h.keeps_disconnectBlocks now _) fun bs => ?_
    cases bs with
    | none => exact Keeps.pure _
    | some bs =>
      refine Keeps.bind (h.keeps_connectAltChain now bs _ _) fun r => Keeps.ite (Keeps.pure _) ?_
      refine Keeps.bind (old bs) fun r => Keeps.ite ?_ ?_
      · exact Keeps.bind (h.keeps_rollback now bs _) fun _ => Keeps.pure _
      · exact Keeps.bind (h.keeps_eraseAltChain _) fun _ => Keeps.pure _

theorem keeps_alternativeBlock {switch : AltChain → NodeM Bool} (hswitch : ∀ chain, Keeps P (switch chain))
    (b : Block) : Keeps P (alternativeBlock env switch b (getBlockHash env b)) := by
  intro n hn
  rcases alternativeBlock_cases env n b with ⟨r, ha, hr⟩ | ⟨c, prev, hj, ⟨-, hr⟩ | ⟨-, hr⟩⟩
  · obtain ⟨zone, hz⟩ := ha.state
    rw [hr, hz]
    exact h.zone n zone hn
  · rw [hr]
    exact h.join n b c prev hj hn
  · rw [hr]
    have hs := Keeps.bind (hswitch (joinedChain env b c prev))
      (fun r => Keeps.pure (if r then BlockVerdict.added else .failed)) _ (h.join n b c prev hj hn)
    unfold catchEntry
    split
    · next heq =>
      rw [heq] at hs
      exact hs
    · exact hs

theorem keeps_handleAlternativeBlock (now depth : Nat) (b : Block) :
    Keeps P (handleAlternativeBlock env now depth b (getBlockHash env b)) := by
  induction depth generalizing b with
  | zero => exact h.keeps_alternativeBlock (fun _ => Keeps.throw _) b
  | succ depth ih =>
    exact h.keeps_alternativeBlock (fun chain => h.keeps_switch (fun b => ih b) now chain) b

end SideInvariant

/-! ## Every alternative block is kept under its own id -/

/-- A sound node that keeps its alternative blocks under their ids. -/
structure Keyed (env : Env) (n : Node) : Prop where
  sound : Sound env (fun _ => True) n
  keys : ∀ (id : Hash) e, n.chain.mAlternativeChains[id]? = some e → id = getBlockHash env e.bl

theorem keyed_invariant (env : Env) : SideInvariant env (Keyed env) := by
  have line : ∀ {α : Type} {x : NodeM α},
      (∀ alts invalid, Keeps (SideIs env alts invalid) x) → Keeps (Keyed env) x := by
    intro α x hx n hn
    have hs := hx n.chain.mAlternativeChains n.chain.mInvalidBlocks n ⟨hn.sound, rfl, rfl⟩
    exact ⟨hs.sound, hs.alts ▸ hn.keys⟩
  have side : ∀ (n : Node) (alts invalid : Map Hash BlockEntry) (zone : Bool), Keyed env n →
      (∀ (id : Hash) e, alts[id]? = some e → id = getBlockHash env e.bl) →
      Keyed env { n with chain := { n.chain with
        mAlternativeChains := alts, mInvalidBlocks := invalid, mIsInCheckpointZone := zone } } :=
    fun n alts invalid zone hn hkeys =>
      ⟨⟨hn.sound.index, hn.sound.outputs, hn.sound.txs, hn.sound.pool⟩, hkeys⟩
  refine ⟨⟨?_, ?_⟩, ?_, ?_, ?_, ?_⟩
  · exact fun now bl => line fun alts invalid => (sideIs_invariant env alts invalid).push now bl
  · exact fun now => line fun alts invalid => (sideIs_invariant env alts invalid).pop now
  · exact fun n zone hn => side n n.chain.mAlternativeChains n.chain.mInvalidBlocks zone hn hn.keys
  · intro n id e hn
    exact side n n.chain.mAlternativeChains _ n.chain.mIsInCheckpointZone hn hn.keys
  · intro n id hn
    refine side n _ n.chain.mInvalidBlocks n.chain.mIsInCheckpointZone hn fun id' e he => ?_
    rw [Std.ExtTreeMap.getElem?_erase] at he
    split at he
    · cases he
    · exact hn.keys id' e he
  · intro n b c prev _ hn
    refine side n _ n.chain.mInvalidBlocks
      (n.chain.mCheckpoints.isInCheckpointZone c.height) hn fun id' e he => ?_
    rw [Std.ExtTreeMap.getElem?_insert] at he
    split at he
    · next hid =>
      cases he
      exact (Std.LawfulEqCmp.eq_of_compare hid).symm
    · exact hn.keys id' e he

/-- What `handle_alternative_block` hands over: the way back of a new block,
and the block itself under its new id. -/
theorem Joins.handed {env : Env} {n : Node} {b : Block} {c : AltCandidate} {prev : Nat}
    (h : Joins env n b c prev) (hn : Keyed env n) :
    Handed env (joined env n b c prev) (joinedChain env b c prev) := by
  obtain ⟨split, hj⟩ := altCandidate_judged h.candidate
  have hway := hj.chain
  have hkept : ∀ p ∈ c.altChain, n.chain.mAlternativeChains[p.1]? = some p.2 := by
    intro p hp
    obtain ⟨i, hi⟩ := List.getElem?_of_mem hp
    exact (altChainTo_below hway hi).1
  have hne : ∀ p ∈ c.altChain, getBlockHash env b ≠ p.1 := by
    intro p hp heq
    have hnew := h.new
    rw [heq, Std.ExtTreeMap.contains_eq_isSome_getElem?, hkept p hp] at hnew
    cases hnew
  refine ⟨fun p hp => ?_, fun p hp => ?_, ?_⟩
  · show (n.chain.mAlternativeChains.insert (getBlockHash env b) (altBlockEntry b c prev))[p.1]? =
      some p.2
    rcases List.mem_append.1 hp with hp | hp
    · rw [Std.ExtTreeMap.getElem?_insert, if_neg, hkept p hp]
      intro hc
      exact hne p hp (Std.LawfulEqCmp.eq_of_compare hc)
    · rw [List.mem_singleton.1 hp]
      exact Std.ExtTreeMap.getElem?_insert_self
  · rcases List.mem_append.1 hp with hp | hp
    · exact hn.keys p.1 p.2 (hkept p hp)
    · rw [List.mem_singleton.1 hp]
      rfl
  · rw [joinedChain, List.map_append, List.nodup_append]
    refine ⟨altChainTo_nodup hway, List.nodup_singleton _, fun x hx y hy => ?_⟩
    obtain ⟨p, hp, rfl⟩ := List.mem_map.1 hx
    rw [List.map_singleton, List.mem_singleton] at hy
    rw [hy]
    exact (hne p hp).symm

theorem Reachable.keyed {env : Env} {n : Node} (h : Reachable env n) : Keyed env n := by
  have hinv := keyed_invariant env
  have hadd : ∀ now depth bl, Keeps (Keyed env) (addNewBlock env now depth bl) := fun now depth bl =>
    keeps_addNewBlock_of (hinv.keeps_handleAlternativeBlock now depth bl) (hinv.push now bl)
  induction h with
  | @genesis checkpoints now depth bl n h =>
    have hfirst : Keyed env (Node.initial checkpoints) := by
      refine ⟨Sound.initial env _ checkpoints, fun id e he => ?_⟩
      have hnone : (∅ : Map Hash BlockEntry)[id]? = none := Std.ExtTreeMap.getElem?_empty
      have := hnone.symm.trans he
      cases this
    have := hadd now depth bl _ hfirst
    rw [h, stateOf_ok] at this
    exact this
  | @step n n' now depth ev _ ends ih =>
    cases ev with
    | incomingTx blob kept =>
      have hcall : EndsIn (handleIncomingTx env now blob kept n) n' := ends.of_bind_pure
      obtain ⟨hchain, hsound⟩ := hcall.poolOnly ih.sound
      exact ⟨hsound, hchain ▸ ih.keys⟩
    | newBlock bl =>
      have hcall : EndsIn (addNewBlock env now depth bl n) n' := ends.of_bind_pure
      rw [hcall.eq_stateOf]
      exact hadd now depth bl n ih

end DarknetSpace
