import DarknetSpace.Miner.Miner
import DarknetSpace.Core.Core

/-!
# Which template a worker mines on

A worker copies the template under the lock and reads its number afterwards,
outside. If `set_block_template` gets in between, the worker files the old block
under the new number and will not look again until the number changes once
more.

As long as that does not happen, and the 32-bit number does not come round to 0, a
worker whose number is the current one has the current template (`NoStale`). The
invariant adds what holds in the middle of a refresh: between the copy and the
read the copy is the current template.
-/

namespace DarknetSpace

variable {κ : Type}

/-- The template set last. -/
def Miner.current (m : Miner κ) : BlockTemplate := ⟨m.mTemplate, m.mDiffic, m.mHeight⟩

/-- The worker's copy is the template `t`; the nonce is the worker's own. -/
def Worker.Holds (t : BlockTemplate) (w : Worker) : Prop :=
  { w.b with nonce := t.bl.nonce } = t.bl ∧ w.localDiff = t.di ∧ w.height = t.height

instance (t : BlockTemplate) (w : Worker) : Decidable (w.Holds t) :=
  inferInstanceAs (Decidable (_ ∧ _ ∧ _))

/-- A worker that is about to hash, or about to skip the refresh, under the current
number holds the current template. A template that has been set has a number. -/
structure Miner.NoStale (m₀ m : Miner κ) : Prop where
  hashing : ∀ w ∈ m.mThreads, w.pc = .hash → w.localTemplateVer = m.mTemplateNo → w.Holds m.current
  skipping : ∀ w ∈ m.mThreads, w.pc = .loop → w.localTemplateVer ≠ 0 →
    w.localTemplateVer = m.mTemplateNo → w.Holds m.current
  numbered : m.mTemplateNo = 0 → m.current = m₀.current

/-- The miner as it is constructed, with its threads at the start of their
function. -/
structure Miner.Started (m : Miner κ) : Prop where
  number : m.mTemplateNo = 0
  threads : ∀ w ∈ m.mThreads, w.pc = .loop ∧ w.localTemplateVer = 0
  waiting : m.mAliasToApplyInBlock = AliasInfo.empty

/-- No worker stands between its copy and its read of the number when a template is
set, and the number does not come round. -/
def Miner.Undisturbed : MinerEvent κ → Miner κ → Prop
  | .requestBlockTemplate _, m => m.mTemplateNo + 1 ≠ 0 ∧ ∀ w ∈ m.mThreads, w.pc ≠ .record
  | _, _ => True

instance : ∀ (e : MinerEvent κ) (m : Miner κ), Decidable (Miner.Undisturbed e m)
  | .requestBlockTemplate _, _ => inferInstanceAs (Decidable (_ ∧ _))
  | .setAliasInfo _, _ | .validateAliasInfo, _ | .chainMoves _, _ | .compare _, _ | .copy _, _
  | .record _, _ | .restart _, _ | .gate _, _ | .hash _ _, _ | .take _, _ | .add _, _
  | .handled _ _, _ => instDecidableTrue

/-! ## The invariant -/

/-- What holds of a worker at every point of its loop. -/
structure Worker.Fit (t : BlockTemplate) (no : UInt32) (w : Worker) : Prop where
  bounded : w.localTemplateVer ≤ no
  copied : w.pc = .record → w.Holds t
  fresh : w.pc ≠ .copy → w.pc ≠ .record → w.localTemplateVer ≠ 0 → w.localTemplateVer = no →
    w.Holds t
  gated : w.pc = .hash → w.localTemplateVer ≠ 0

structure Miner.Fit (m₀ m : Miner κ) : Prop where
  threads : ∀ w ∈ m.mThreads, w.Fit m.current m.mTemplateNo
  numbered : m.mTemplateNo = 0 → m.current = m₀.current

section

variable {m₀ m m' : Miner κ} {w w' : Worker} {i : Nat}

theorem Miner.Started.fit (h : m.Started) : Miner.Fit m m := by
  refine ⟨?_, fun _ => rfl⟩
  intro w hw
  obtain ⟨hpc, hver⟩ := h.threads w hw
  refine ⟨?_, ?_, ?_, ?_⟩
  · rw [hver, h.number]
    exact UInt32.le_refl 0
  · intro hrecord
    rw [hpc] at hrecord
    cases hrecord
  · intro _ _ hne
    exact absurd hver hne
  · intro hhash
    rw [hpc] at hhash
    cases hhash

theorem Miner.Fit.noStale (h : Miner.Fit m₀ m) : Miner.NoStale m₀ m := by
  refine ⟨?_, ?_, h.numbered⟩
  · intro w hw hpc hver
    have fit := h.threads w hw
    exact fit.fresh (by rw [hpc]; nofun) (by rw [hpc]; nofun) (fit.gated hpc) hver
  · intro w hw hpc hne hver
    exact (h.threads w hw).fresh (by rw [hpc]; nofun) (by rw [hpc]; nofun) hne hver

/-- One worker moves on, the template stays. -/
theorem Miner.Fit.setWorker (h : Miner.Fit m₀ m) (hw' : w'.Fit m.current m.mTemplateNo) :
    Miner.Fit m₀ (m.setWorker i w') := by
  refine ⟨?_, h.numbered⟩
  intro w hw
  rcases Miner.mem_setWorker hw with hold | rfl
  · exact h.threads w hold
  · exact hw'

/-- A move that leaves the copy and its number alone. -/
theorem Worker.Fit.move {t : BlockTemplate} {no : UInt32} (h : w.Fit t no) (hcopy : w.pc ≠ .copy)
    (hrecord : w.pc ≠ .record) (hver : w'.localTemplateVer = w.localTemplateVer)
    (hb : { w'.b with nonce := t.bl.nonce } = { w.b with nonce := t.bl.nonce })
    (hdiff : w'.localDiff = w.localDiff) (hheight : w'.height = w.height)
    (hpc : w'.pc ≠ .record) (hgate : w'.pc = .hash → w.localTemplateVer ≠ 0) : w'.Fit t no := by
  refine ⟨hver ▸ h.bounded, fun hp => absurd hp hpc, ?_, fun hp => hver ▸ hgate hp⟩
  intro _ _ hne heq
  rw [hver] at hne heq
  obtain ⟨hb', hd, hh⟩ := h.fresh hcopy hrecord hne heq
  exact ⟨hb.trans hb', hdiff.trans hd, hheight.trans hh⟩

/-- A new template: every number in use is below the new one. -/
theorem Miner.Fit.setBlockTemplate (h : Miner.Fit m₀ m) (hnext : m.mTemplateNo + 1 ≠ 0)
    (hrecord : ∀ w ∈ m.mThreads, w.pc ≠ .record) (t : BlockTemplate) (rand : UInt32) :
    Miner.Fit m₀ (m.setBlockTemplate t rand) := by
  refine ⟨?_, fun hzero => absurd hzero hnext⟩
  intro w hw
  have fit := h.threads w hw
  have hlt : w.localTemplateVer < m.mTemplateNo + 1 := by
    have hb := UInt32.le_iff_toNat_le.1 fit.bounded
    have hwrap : (m.mTemplateNo + 1).toNat ≠ 0 := by
      intro h0
      exact hnext (UInt32.toNat_inj.1 h0)
    rw [UInt32.lt_iff_toNat_lt]
    rw [UInt32.toNat_add] at hwrap ⊢
    have hone : (1 : UInt32).toNat = 1 := rfl
    have hno := m.mTemplateNo.toNat_lt
    omega
  refine ⟨UInt32.le_of_lt hlt, fun hp => absurd hp (hrecord w hw), ?_, fit.gated⟩
  intro _ _ _ heq
  exact absurd heq (UInt32.ne_of_lt hlt)

theorem Miner.Fit.step (h : MinerHandler κ) (e : MinerEvent κ) (hm : Miner.Fit m₀ m)
    (hmeets : Miner.Undisturbed e m) (hstep : Miner.step h e m = some m') : Miner.Fit m₀ m' := by
  cases e with
  | setAliasInfo ai =>
    have hset : m.setAliasInfo ai = some m' := hstep
    unfold Miner.setAliasInfo at hset
    split at hset
    · cases hset
      exact ⟨hm.threads, hm.numbered⟩
    · cases hset
  | validateAliasInfo =>
    cases hstep
    unfold Miner.validateAliasInfo
    split
    · exact ⟨hm.threads, hm.numbered⟩
    · exact hm
  | requestBlockTemplate rand =>
    cases hstep
    unfold Miner.requestBlockTemplate
    split
    · exact hm
    · exact hm.setBlockTemplate hmeets.1 hmeets.2 _ rand
  | chainMoves c =>
    cases hstep
    exact ⟨hm.threads, hm.numbered⟩
  | compare i =>
    obtain ⟨w, hw, hpc, hnext⟩ := Miner.worker_some hstep
    have fit := hm.threads w (List.mem_of_getElem? hw)
    split at hnext
    · cases hnext
      exact hm.setWorker ⟨fit.bounded, nofun, fun hp => absurd rfl hp, nofun⟩
    · cases hnext
      exact hm.setWorker (fit.move (by rw [hpc]; nofun) (by rw [hpc]; nofun) rfl rfl rfl rfl nofun
        nofun)
  | copy i =>
    obtain ⟨w, hw, hpc, hnext⟩ := Miner.worker_some hstep
    have fit := hm.threads w (List.mem_of_getElem? hw)
    cases hnext
    exact hm.setWorker ⟨fit.bounded, fun _ => ⟨rfl, rfl, rfl⟩, fun _ hp => absurd rfl hp, nofun⟩
  | record i =>
    obtain ⟨w, hw, hpc, hnext⟩ := Miner.worker_some hstep
    have fit := hm.threads w (List.mem_of_getElem? hw)
    cases hnext
    -- nothing was set since the copy, so the number read belongs to it
    exact hm.setWorker ⟨UInt32.le_refl _, nofun, fun _ _ _ _ => fit.copied hpc, nofun⟩
  | restart i =>
    obtain ⟨w, hw, hpc, hnext⟩ := Miner.worker_some hstep
    have fit := hm.threads w (List.mem_of_getElem? hw)
    cases hnext
    exact hm.setWorker (fit.move (by rw [hpc]; nofun) (by rw [hpc]; nofun) rfl rfl rfl rfl nofun
      nofun)
  | gate i =>
    obtain ⟨w, hw, hpc, hnext⟩ := Miner.worker_some hstep
    have fit := hm.threads w (List.mem_of_getElem? hw)
    split at hnext
    next =>
      cases hnext
      exact hm.setWorker (fit.move (by rw [hpc]; nofun) (by rw [hpc]; nofun) rfl rfl rfl rfl nofun
        nofun)
    next hne =>
      cases hnext
      exact hm.setWorker (fit.move (by rw [hpc]; nofun) (by rw [hpc]; nofun) rfl rfl rfl rfl nofun
        fun _ => hne)
  | hash i lucky =>
    obtain ⟨w, hw, hpc, hnext⟩ := Miner.worker_some hstep
    have fit := hm.threads w (List.mem_of_getElem? hw)
    split at hnext
    · cases hnext
      exact hm.setWorker (fit.move (by rw [hpc]; nofun) (by rw [hpc]; nofun) rfl rfl rfl rfl nofun
        nofun)
    · cases hnext
      exact hm.setWorker (fit.move (by rw [hpc]; nofun) (by rw [hpc]; nofun) rfl rfl rfl rfl nofun
        nofun)
  | take i =>
    obtain ⟨w, hw, hpc, hnext⟩ := Miner.worker_some hstep
    have fit := hm.threads w (List.mem_of_getElem? hw)
    cases hnext
    unfold Miner.takeAlias
    split
    · exact Miner.Fit.setWorker ⟨hm.threads, hm.numbered⟩ (fit.move (by rw [hpc]; nofun)
        (by rw [hpc]; nofun) rfl rfl rfl rfl nofun nofun)
    · exact Miner.Fit.setWorker ⟨hm.threads, hm.numbered⟩ (fit.move (by rw [hpc]; nofun)
        (by rw [hpc]; nofun) rfl rfl rfl rfl nofun nofun)
  | add i =>
    obtain ⟨w, hw, hpc, hnext⟩ := Miner.worker_some hstep
    have fit := hm.threads w (List.mem_of_getElem? hw)
    split at hnext
    · cases hnext
    · cases hnext
      exact Miner.Fit.setWorker ⟨hm.threads, hm.numbered⟩ (fit.move (by rw [hpc]; nofun)
        (by rw [hpc]; nofun) rfl rfl rfl rfl nofun nofun)
  | handled i missedTxs =>
    obtain ⟨w, added, hw, hpc, rfl⟩ := Miner.step_handled hstep
    have fit := hm.threads w (List.mem_of_getElem? hw)
    have hfit : Worker.Fit m.current m.mTemplateNo
        { w with pc := .loop, nonce := w.nonce + m.mThreadsTotal.toUInt64 } :=
      fit.move (by rw [hpc]; nofun) (by rw [hpc]; nofun) rfl rfl rfl rfl nofun nofun
    split
    · exact hm.setWorker hfit
    · unfold Miner.putBack
      split
      · exact Miner.Fit.setWorker ⟨hm.threads, hm.numbered⟩ hfit
      · exact Miner.Fit.setWorker ⟨hm.threads, hm.numbered⟩ hfit

end

/-- In every run whose templates are all set while no worker stands between its copy
and its read of the number, no worker keeps a stale template. -/
theorem workers_follow_template {h : MinerHandler κ} {m₀ m : Miner κ} {es : List (MinerEvent κ)}
    (hstart : m₀.Started) (hmeets : Runs.Meets (Miner.step h) Miner.Undisturbed es m₀)
    (hrun : Runs.run (Miner.step h) es m₀ = some m) : Miner.NoStale m₀ m := by
  have hkeeps : ∀ e s s', Miner.Fit m₀ s → Miner.Undisturbed e s → Miner.step h e s = some s' →
      Miner.Fit m₀ s' := fun e _ _ hs hc hstep => hs.step h e hc hstep
  exact (Runs.run_keeps hkeeps hstart.fit hmeets hrun).noStale

namespace Devnet

/-- The next block of the main line; its coinbase registers the alias that waits. -/
def proposed (n : Node) (ai : AliasInfo) : Block :=
  let height := n.chain.mBlocks.length
  block height 0 (UInt64.ofNat (height - 1))
    (coinbase height 1 0 (makeTxExtraAliasEntryToSign ai)) []

def minerHandler : MinerHandler Node where
  env
  addNewBlock b n :=
    match DarknetSpace.addNewBlock env now 3 b n with
    | .ok verdict n' => some (verdict.2.mAddedToMainChain, n')
    | .error _ _ => none
  getBlockTemplate n _ _ _ ai :=
    some ⟨proposed n ai, Storage.getDifficultyForNextBlock n.chain.mBlocks,
      UInt64.ofNat n.chain.mBlocks.length⟩
  getAliasInfo n := DarknetSpace.getAliasInfo n.chain
  projectVersionLong := []

/-- A miner with one thread over the node with its genesis block. -/
def miner : Miner Node where
  mTemplate := ⟨⟨0, 0, 0, nullHash, 0, 0⟩, ⟨⟨0, 0, [], [], []⟩, []⟩, []⟩
  mDiffic := 0
  mHeight := 0
  mTemplateNo := 0
  mStarterNonce := 0
  mThreadsTotal := 1
  mMineAddress := ⟨0, 0⟩
  mExtraMessages := []
  currentExtraMessageIndex := 0
  donationDecision := true
  mAliasToApplyInBlock := AliasInfo.empty
  mThreads := [⟨.loop, genesis, 0, 0, 0, 0, AliasInfo.empty⟩]
  mBc := first

theorem miner_started : miner.Started := by
  refine ⟨rfl, ?_, rfl⟩
  intro w hw
  cases List.mem_singleton.1 hw
  exact ⟨rfl, rfl⟩

/-- A template is set and the worker picks it up. -/
def refresh : List (MinerEvent Node) :=
  [.requestBlockTemplate 1, .compare 0, .copy 0, .record 0, .restart 0, .gate 0]

/-- The chain moves on, and the new template is set after the worker's copy. -/
def lateTemplate : List (MinerEvent Node) :=
  [.requestBlockTemplate 1, .compare 0, .copy 0, .chainMoves (node ∅ oneBlock),
    .requestBlockTemplate 2, .record 0, .restart 0, .gate 0]

def mined (es : List (MinerEvent Node)) : Option (Miner Node) :=
  Runs.run (Miner.step minerHandler) es miner

end Devnet

/-- A worker that refreshes in peace hashes the template. -/
theorem workers_follow_template_devnet :
    ∃ m w, Devnet.mined Devnet.refresh = some m ∧ w ∈ m.mThreads ∧ w.pc = .hash ∧
      w.localTemplateVer = m.mTemplateNo ∧ w.Holds m.current := by
  have eval :
      ((Devnet.mined Devnet.refresh).any fun m =>
        m.mThreads.any fun w => w.pc = .hash ∧ w.localTemplateVer = m.mTemplateNo) = true ∧
      Runs.Meets (Miner.step Devnet.minerHandler) Miner.Undisturbed Devnet.refresh
        Devnet.miner := by
    decide +kernel
  obtain ⟨hany, hmeets⟩ := eval
  obtain ⟨m, hm, hsome⟩ := (Option.any_eq_true _ _).1 hany
  obtain ⟨w, hw, hdec⟩ := List.any_eq_true.1 hsome
  obtain ⟨hpc, hver⟩ := of_decide_eq_true hdec
  have hfollows := workers_follow_template Devnet.miner_started hmeets hm
  exact ⟨m, w, hm, hw, hpc, hver, hfollows.hashing w hw hpc hver⟩

/-- The worker files the template of height 1 under the number of the template of
height 2, and hashes it. -/
theorem stale_template_mined :
    Devnet.miner.Started ∧ ∃ m, Devnet.mined Devnet.lateTemplate = some m ∧
      (∃ w ∈ m.mThreads, w.pc = .hash ∧ w.localTemplateVer = m.mTemplateNo ∧ w.height = 1 ∧
        m.mHeight = 2) ∧
      ¬ Miner.NoStale Devnet.miner m := by
  refine ⟨Devnet.miner_started, ?_⟩
  have eval : ((Devnet.mined Devnet.lateTemplate).any fun m =>
      m.mThreads.any fun w => w.pc = .hash ∧ w.localTemplateVer = m.mTemplateNo ∧ w.height = 1 ∧
        m.mHeight = 2) = true := by
    decide +kernel
  obtain ⟨m, hm, hsome⟩ := (Option.any_eq_true _ _).1 eval
  obtain ⟨w, hw, hdec⟩ := List.any_eq_true.1 hsome
  obtain ⟨hpc, hver, hone, htwo⟩ := of_decide_eq_true hdec
  refine ⟨m, hm, ⟨w, hw, hpc, hver, hone, htwo⟩, fun hfollows => ?_⟩
  obtain ⟨-, -, hheight⟩ := hfollows.hashing w hw hpc hver
  have hsame : (1 : UInt64) = 2 := hone.symm.trans (hheight.trans htwo)
  exact absurd hsame (by decide)

end DarknetSpace
