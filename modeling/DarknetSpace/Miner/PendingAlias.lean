import DarknetSpace.Miner.Templates

/-!
# The alias that waits to be registered

`Owed` is the promise `set_alias_info` makes: the alias it accepted last, until a
block of this miner that commits it is on the main chain or the name is found
taken. The promise is kept while the alias is the one waiting, or in the hands of a
worker whose block is not yet decided or was refused.

There are two ways to break it. A worker that finds a block takes the waiting alias
even if its template was built before the alias was set; when the block is added,
the alias is gone. And a worker whose block was refused puts its alias back over
one that has been set in the meantime.
-/

namespace DarknetSpace

variable {κ : Type}

/-- The miner and the alias it owes. -/
structure Owing (κ : Type) where
  miner : Miner κ
  owed : Option AliasInfo

/-- The alias owed after an event. An empty name means no alias. -/
def Miner.owedNext (h : MinerHandler κ) (m : Miner κ) (owed : Option AliasInfo) :
    MinerEvent κ → Option AliasInfo
  | .setAliasInfo ai => if ai.mAlias.length ≠ 0 then some ai else none
  | .validateAliasInfo =>
    -- the name of the waiting alias is taken on the chain
    if (h.getAliasInfo m.mBc m.mAliasToApplyInBlock.mAlias).isSome then
      owed.filter fun ai => ai.mAlias != m.mAliasToApplyInBlock.mAlias
    else owed
  | .add i =>
    match m.mThreads[i]? with
    | none => owed
    | some w =>
      match h.addNewBlock w.b m.mBc with
      | some (true, _) => owed.filter fun ai => !commits h.env w.b ai
      | _ => owed
  | _ => owed

def Owing.step (h : MinerHandler κ) (e : MinerEvent κ) (o : Owing κ) : Option (Owing κ) :=
  (Miner.step h e o.miner).map fun m => ⟨m, o.miner.owedNext h o.owed e⟩

/-- A worker that will put `ai` back if its block is refused. -/
def Worker.WillPutBack (ai : AliasInfo) (w : Worker) : Prop :=
  w.aiLocal = ai ∧ (w.pc = .taken ∨ w.pc = .handling false)

/-- The alias is still pending. -/
def Miner.Pending (m : Miner κ) (ai : AliasInfo) : Prop :=
  m.mAliasToApplyInBlock = ai ∨ ∃ w ∈ m.mThreads, w.WillPutBack ai

instance (m : Miner κ) (ai : AliasInfo) : Decidable (m.Pending ai) :=
  have (w : Worker) : Decidable (w.WillPutBack ai) := inferInstanceAs (Decidable (_ ∧ _))
  inferInstanceAs (Decidable (_ ∨ ∃ w ∈ m.mThreads, w.WillPutBack ai))

/-- What is owed is pending. -/
def Owing.Keeps (o : Owing κ) : Prop :=
  ∀ ai, o.owed = some ai → ai.mAlias.length ≠ 0 ∧ o.miner.Pending ai

/-- A block that is added commits the alias its worker took, and an alias is put back
only where none, or the same one, is waiting. -/
def Owing.Careful (h : MinerHandler κ) : MinerEvent κ → Owing κ → Prop
  | .add i, o =>
    ∀ w ∈ o.miner.mThreads[i]?, ∀ r ∈ h.addNewBlock w.b o.miner.mBc, r.1 = true →
      w.aiLocal.mAlias.length ≠ 0 → commits h.env w.b w.aiLocal = true
  | .handled i missedTxs, o =>
    ∀ w ∈ o.miner.mThreads[i]?, (w.pc = .handling true → missedTxs = true) →
      w.aiLocal.mAlias.length ≠ 0 →
        o.miner.mAliasToApplyInBlock.mAlias.length = 0 ∨ o.miner.mAliasToApplyInBlock = w.aiLocal
  | _, _ => True

instance (h : MinerHandler κ) : ∀ (e : MinerEvent κ) (o : Owing κ), Decidable (Owing.Careful h e o)
  | .add _, _ => inferInstanceAs (Decidable (∀ w ∈ _, ∀ r ∈ _, _ → _ → _))
  | .handled _ _, _ => inferInstanceAs (Decidable (∀ w ∈ _, _ → _ → _))
  | .setAliasInfo _, _ | .validateAliasInfo, _ | .requestBlockTemplate _, _ | .chainMoves _, _
  | .compare _, _ | .copy _, _ | .record _, _ | .restart _, _ | .gate _, _ | .hash _ _, _
  | .take _, _ => instDecidableTrue

section

variable {h : MinerHandler κ} {m m' : Miner κ} {owed : Option AliasInfo} {ai : AliasInfo}
  {w w' : Worker} {i : Nat}

/-- Another worker than one that holds the alias moves on. -/
theorem Miner.Pending.setWorker (hp : m.Pending ai) (hw : m.mThreads[i]? = some w)
    (hnot : ¬ w.WillPutBack ai) (w' : Worker) : (m.setWorker i w').Pending ai := by
  rcases hp with hp | ⟨v, hv, hback⟩
  · exact .inl hp
  · obtain ⟨j, hj⟩ := List.mem_iff_getElem?.1 hv
    have hne : i ≠ j := by
      rintro rfl
      rw [hw] at hj
      cases hj
      exact hnot hback
    refine .inr ⟨v, List.mem_of_getElem? (i := j) ?_, hback⟩
    unfold Miner.setWorker
    rw [List.getElem?_set_ne hne]
    exact hj

/-- A worker that holds the alias moves on and still holds it. -/
theorem Miner.pending_setWorker (hw : m.mThreads[i]? = some w) (hback : w'.WillPutBack ai) :
    (m.setWorker i w').Pending ai :=
  .inr ⟨w', List.mem_set (List.getElem?_eq_some_iff.1 hw).1 w', hback⟩

theorem Worker.not_willPutBack (htaken : w.pc ≠ .taken) (hhandling : w.pc ≠ .handling false) :
    ¬ w.WillPutBack ai := by
  rintro ⟨-, hpc | hpc⟩
  · exact htaken hpc
  · exact hhandling hpc

/-- The events of a worker between two blocks, and of the chain, touch no alias. -/
theorem Owing.Keeps.quiet (hk : Owing.Keeps ⟨m, owed⟩) (hw : m.mThreads[i]? = some w)
    (htaken : w.pc ≠ .taken) (hhandling : w.pc ≠ .handling false) (w' : Worker) :
    Owing.Keeps ⟨m.setWorker i w', owed⟩ := by
  intro ai hai
  obtain ⟨hname, hp⟩ := hk ai hai
  exact ⟨hname, hp.setWorker hw (Worker.not_willPutBack htaken hhandling) w'⟩

theorem Owing.Keeps.validate (hk : Owing.Keeps ⟨m, owed⟩) :
    Owing.Keeps ⟨m.validateAliasInfo h, m.owedNext h owed .validateAliasInfo⟩ := by
  unfold Miner.validateAliasInfo Miner.owedNext
  cases hfound : h.getAliasInfo m.mBc m.mAliasToApplyInBlock.mAlias with
  | none => exact hk
  | some info =>
    intro ai hai
    obtain ⟨howed, hother⟩ := Option.filter_eq_some_iff.1 hai
    obtain ⟨hname, hp⟩ := hk ai howed
    refine ⟨hname, ?_⟩
    rcases hp with rfl | hp
    · exact absurd hother (by simp)
    · exact .inr hp

theorem Owing.Keeps.take (hk : Owing.Keeps ⟨m, owed⟩) (hw : m.mThreads[i]? = some w)
    (hpc : w.pc = .found) :
    Owing.Keeps ⟨{ (m.takeAlias w).1 with
        currentExtraMessageIndex := m.currentExtraMessageIndex + 1 }.setWorker i
          { (m.takeAlias w).2 with pc := .taken }, owed⟩ := by
  have hnot (ai : AliasInfo) : ¬ w.WillPutBack ai :=
    Worker.not_willPutBack (by rw [hpc]; nofun) (by rw [hpc]; nofun)
  intro ai hai
  obtain ⟨hname, hp⟩ := hk ai hai
  refine ⟨hname, ?_⟩
  unfold Miner.takeAlias
  split
  next hwaiting =>
    rcases hp with hp | hp
    · -- from the miner into the worker's hands
      exact Miner.pending_setWorker hw ⟨hp, .inl rfl⟩
    · have hheld : Miner.Pending { m with
          mAliasToApplyInBlock := AliasInfo.empty
          currentExtraMessageIndex := m.currentExtraMessageIndex + 1 } ai := .inr hp
      exact hheld.setWorker hw (hnot ai) _
  next hwaiting =>
    exact Miner.Pending.setWorker hp hw (hnot ai) _

theorem Owing.Keeps.add {added : Bool} {c : κ} (hk : Owing.Keeps ⟨m, owed⟩)
    (hw : m.mThreads[i]? = some w)
    (hadd : h.addNewBlock w.b m.mBc = some (added, c))
    (hcareful : Owing.Careful h (.add i) ⟨m, owed⟩) :
    Owing.Keeps ⟨{ m with mBc := c }.setWorker i { w with pc := .handling added },
      m.owedNext h owed (.add i)⟩ := by
  unfold Miner.owedNext
  simp only [hw, hadd]
  cases added with
  | false =>
    intro ai hai
    obtain ⟨hname, hp⟩ := hk ai hai
    refine ⟨hname, ?_⟩
    by_cases hback : w.WillPutBack ai
    · exact Miner.pending_setWorker hw ⟨hback.1, .inr rfl⟩
    · exact Miner.Pending.setWorker hp hw hback _
  | true =>
    intro ai hai
    obtain ⟨howed, hother⟩ := Option.filter_eq_some_iff.1 hai
    obtain ⟨hname, hp⟩ := hk ai howed
    refine ⟨hname, Miner.Pending.setWorker hp hw ?_ _⟩
    rintro ⟨rfl, -⟩
    -- the block commits the alias in the worker's hands, so it is not owed any more
    rw [hcareful w hw _ hadd rfl hname] at hother
    cases hother

theorem Owing.Keeps.handled {missedTxs added : Bool} (hk : Owing.Keeps ⟨m, owed⟩)
    (hw : m.mThreads[i]? = some w) (hpc : w.pc = .handling added)
    (hcareful : Owing.Careful h (.handled i missedTxs) ⟨m, owed⟩) (w' : Worker) :
    Owing.Keeps ⟨(if added && !missedTxs then m else { m.putBack w.aiLocal with
      currentExtraMessageIndex := m.currentExtraMessageIndex - 1 }).setWorker i w', owed⟩ := by
  intro ai hai
  obtain ⟨hname, hp⟩ := hk ai hai
  refine ⟨hname, ?_⟩
  split
  next hfound =>
    refine Miner.Pending.setWorker hp hw (Worker.not_willPutBack ?_ ?_) w'
    · rw [hpc]
      nofun
    · rw [hpc]
      intro hfalse
      cases hfalse
      cases hfound
  next hrefused =>
    have hmissed : w.pc = .handling true → missedTxs = true := by
      intro htrue
      rw [hpc] at htrue
      cases htrue
      simpa using hrefused
    by_cases hback : w.WillPutBack ai
    · left
      unfold Miner.putBack Miner.setWorker
      rw [hback.1, if_pos hname]
    · have hkept : Miner.Pending { m.putBack w.aiLocal with
          currentExtraMessageIndex := m.currentExtraMessageIndex - 1 } ai := by
        unfold Miner.putBack
        split
        next hlocal =>
          rcases hp with rfl | hp
          · left
            rcases hcareful w hw hmissed hlocal with hnone | hsame
            · exact absurd hnone hname
            · exact hsame.symm
          · exact .inr hp
        next => exact hp
      refine hkept.setWorker ?_ hback w'
      unfold Miner.putBack
      split
      · exact hw
      · exact hw

theorem Owing.Keeps.step {o o' : Owing κ} (e : MinerEvent κ) (hk : o.Keeps)
    (hcareful : Owing.Careful h e o) (hstep : Owing.step h e o = some o') : o'.Keeps := by
  obtain ⟨m, owed⟩ := o
  obtain ⟨m', hm', rfl⟩ := Option.map_eq_some_iff.1 hstep
  cases e with
  | setAliasInfo ai =>
    have hset : m.setAliasInfo ai = some m' := hm'
    unfold Miner.setAliasInfo at hset
    split at hset
    next =>
      cases hset
      intro ai' hai'
      have howed : (if ai.mAlias.length ≠ 0 then some ai else none) = some ai' := hai'
      split at howed
      next hname =>
        cases howed
        exact ⟨hname, .inl rfl⟩
      next => cases howed
    next => cases hset
  | validateAliasInfo =>
    cases hm'
    exact hk.validate
  | requestBlockTemplate rand =>
    cases hm'
    unfold Miner.requestBlockTemplate
    split
    · exact hk
    · exact hk
  | chainMoves c =>
    cases hm'
    exact hk
  | compare i =>
    obtain ⟨w, hw, hpc, hnext⟩ := Miner.worker_some hm'
    split at hnext
    · cases hnext
      exact hk.quiet hw (by rw [hpc]; nofun) (by rw [hpc]; nofun) _
    · cases hnext
      exact hk.quiet hw (by rw [hpc]; nofun) (by rw [hpc]; nofun) _
  | copy i =>
    obtain ⟨w, hw, hpc, hnext⟩ := Miner.worker_some hm'
    cases hnext
    exact hk.quiet hw (by rw [hpc]; nofun) (by rw [hpc]; nofun) _
  | record i =>
    obtain ⟨w, hw, hpc, hnext⟩ := Miner.worker_some hm'
    cases hnext
    exact hk.quiet hw (by rw [hpc]; nofun) (by rw [hpc]; nofun) _
  | restart i =>
    obtain ⟨w, hw, hpc, hnext⟩ := Miner.worker_some hm'
    cases hnext
    exact hk.quiet hw (by rw [hpc]; nofun) (by rw [hpc]; nofun) _
  | gate i =>
    obtain ⟨w, hw, hpc, hnext⟩ := Miner.worker_some hm'
    split at hnext
    · cases hnext
      exact hk.quiet hw (by rw [hpc]; nofun) (by rw [hpc]; nofun) _
    · cases hnext
      exact hk.quiet hw (by rw [hpc]; nofun) (by rw [hpc]; nofun) _
  | hash i lucky =>
    obtain ⟨w, hw, hpc, hnext⟩ := Miner.worker_some hm'
    split at hnext
    · cases hnext
      exact hk.quiet hw (by rw [hpc]; nofun) (by rw [hpc]; nofun) _
    · cases hnext
      exact hk.quiet hw (by rw [hpc]; nofun) (by rw [hpc]; nofun) _
  | take i =>
    obtain ⟨w, hw, hpc, hnext⟩ := Miner.worker_some hm'
    cases hnext
    -- the alias leaves the pending slot with the template it is put into
    exact hk.take hw hpc
  | add i =>
    obtain ⟨w, hw, hpc, hnext⟩ := Miner.worker_some hm'
    split at hnext
    next => cases hnext
    next added c hadd =>
      cases hnext
      exact hk.add hw hadd hcareful
  | handled i missedTxs =>
    obtain ⟨w, added, hw, hpc, rfl⟩ := Miner.step_handled hm'
    exact hk.handled hw hpc hcareful _

end

/-- In every run whose added blocks commit what their workers took, and whose refused
blocks put nothing back over a newer alias, an accepted alias stays pending until it
is settled. -/
theorem accepted_alias_stays_pending {h : MinerHandler κ} {m₀ : Miner κ} {o : Owing κ}
    {es : List (MinerEvent κ)} (hmeets : Runs.Meets (Owing.step h) (Owing.Careful h) es ⟨m₀, none⟩)
    (hrun : Runs.run (Owing.step h) es ⟨m₀, none⟩ = some o) {ai : AliasInfo}
    (howed : o.owed = some ai) : o.miner.Pending ai := by
  have hkeeps : ∀ e s s', Owing.Keeps s → Owing.Careful h e s → Owing.step h e s = some s' →
      Owing.Keeps s' := fun e _ _ hs hc hstep => hs.step e hc hstep
  have hstart : Owing.Keeps (⟨m₀, none⟩ : Owing κ) := by
    intro ai hai
    cases hai
  exact (Runs.run_keeps hkeeps hstart hmeets hrun ai howed).2

namespace Devnet

/-- An alias with a name of two letters. -/
def nickname : AliasInfo := { AliasInfo.empty with mAlias := [97, 98] }
def otherName : AliasInfo := { AliasInfo.empty with mAlias := [97, 99] }

def owingRun (es : List (MinerEvent Node)) : Option (Owing Node) :=
  Runs.run (Owing.step minerHandler) es ⟨miner, none⟩

/-- The worker has found a block on its template and has taken the waiting alias. -/
def findBlock : List (MinerEvent Node) :=
  [.compare 0, .copy 0, .record 0, .restart 0, .gate 0, .hash 0 true, .take 0]

/-- The template commits the alias, but another block gets there first. -/
def beaten : List (MinerEvent Node) :=
  [.setAliasInfo nickname, .requestBlockTemplate 9] ++ findBlock ++
    [.chainMoves (node ∅ oneBlock), .add 0, .handled 0 false]

/-- The alias is set after the template was built, and the block is added. -/
def setTooLate : List (MinerEvent Node) :=
  [.requestBlockTemplate 9, .setAliasInfo nickname] ++ findBlock ++ [.add 0, .handled 0 false]

/-- A second alias is set while the worker holds the first. -/
def overwritten : List (MinerEvent Node) :=
  [.setAliasInfo nickname, .requestBlockTemplate 9] ++ findBlock ++
    [.setAliasInfo otherName, .chainMoves (node ∅ oneBlock), .add 0, .handled 0 false]

end Devnet

/-- The alias comes back from a block that another one has beaten. -/
theorem accepted_alias_stays_pending_devnet :
    ∃ o, Devnet.owingRun Devnet.beaten = some o ∧ o.owed = some Devnet.nickname ∧
      o.miner.Pending Devnet.nickname := by
  have eval :
      ((Devnet.owingRun Devnet.beaten).any fun o => o.owed = some Devnet.nickname) = true ∧
      Runs.Meets (Owing.step Devnet.minerHandler) (Owing.Careful Devnet.minerHandler) Devnet.beaten
        ⟨Devnet.miner, none⟩ := by
    decide +kernel
  obtain ⟨hany, hmeets⟩ := eval
  obtain ⟨o, ho, hdec⟩ := (Option.any_eq_true _ _).1 hany
  have howed : o.owed = some Devnet.nickname := of_decide_eq_true hdec
  exact ⟨o, ho, howed, accepted_alias_stays_pending hmeets ho howed⟩

/-- An alias that is owed and gone: taken along by a block that does not commit it, or
overwritten by one that was put back. -/
theorem accepted_alias_lost :
    (∃ o, Devnet.owingRun Devnet.setTooLate = some o ∧ o.owed = some Devnet.nickname ∧
      ¬ o.miner.Pending Devnet.nickname) ∧
    ∃ o, Devnet.owingRun Devnet.overwritten = some o ∧ o.owed = some Devnet.otherName ∧
      ¬ o.miner.Pending Devnet.otherName := by
  have eval :
      ((Devnet.owingRun Devnet.setTooLate).any fun o =>
        o.owed = some Devnet.nickname ∧ ¬ o.miner.Pending Devnet.nickname) = true ∧
      ((Devnet.owingRun Devnet.overwritten).any fun o =>
        o.owed = some Devnet.otherName ∧ ¬ o.miner.Pending Devnet.otherName) = true := by
    decide +kernel
  obtain ⟨hlate, hover⟩ := eval
  constructor
  · obtain ⟨o, ho, hdec⟩ := (Option.any_eq_true _ _).1 hlate
    exact ⟨o, ho, of_decide_eq_true hdec⟩
  · obtain ⟨o, ho, hdec⟩ := (Option.any_eq_true _ _).1 hover
    exact ⟨o, ho, of_decide_eq_true hdec⟩

end DarknetSpace
