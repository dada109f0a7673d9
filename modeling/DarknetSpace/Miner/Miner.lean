import DarknetSpace.Lib.Runs
import DarknetSpace.Format.Extra
import DarknetSpace.Chain.Alias

/-!
# The built-in miner

`miner.cpp` as an event machine. The template, its version number and the alias
waiting to be registered are shared; each worker thread runs the loop of
`worker_thread` with its own copies. Two locks cut the code into atomic parts:
`m_template_lock` around `set_block_template` and around the copy a worker makes,
`m_aliace_to_apply_in_block_lock` around every use of the waiting alias. The
version number is an atomic variable that workers read outside both, so each of
these reads is an event of its own.

What the miner calls stands in `MinerHandler`: the two functions of
`i_miner_handler` and the chain's `get_alias_info`. The chain may change between
any two events.
-/

namespace DarknetSpace

/-- `get_block_template` on success. -/
structure BlockTemplate where
  bl : Block
  di : Nat
  height : UInt64
  deriving DecidableEq

/-- `i_miner_handler` and the storage behind it. `addNewBlock` is the step of
`handle_block_found` that can change the chain; it says whether the block went to
the main chain, and is `none` where an exception ends the thread. -/
structure MinerHandler (κ : Type) where
  env : Env
  addNewBlock : Block → κ → Option (Bool × κ)
  getBlockTemplate : κ → AccountPublicAddress → Blob → Bool → AliasInfo → Option BlockTemplate
  getAliasInfo : κ → Blob → Option AliasInfoBase
  projectVersionLong : Blob

/-- Where a worker stands in the loop of `worker_thread`. -/
inductive WorkerPc where
  | loop
  | copy
  | record
  | restart
  | gate
  | hash
  | found
  | taken
  | handling (added : Bool)
  deriving DecidableEq

structure Worker where
  pc : WorkerPc
  b : Block
  localDiff : Nat
  height : UInt64
  localTemplateVer : UInt32
  nonce : UInt64
  aiLocal : AliasInfo
  deriving DecidableEq

structure Miner (κ : Type) where
  mTemplate : Block
  mDiffic : Nat
  mHeight : UInt64
  mTemplateNo : UInt32
  mStarterNonce : UInt32
  mThreadsTotal : UInt32
  mMineAddress : AccountPublicAddress
  mExtraMessages : List Blob
  currentExtraMessageIndex : UInt64
  donationDecision : Bool
  mAliasToApplyInBlock : AliasInfo
  mThreads : List Worker
  mBc : κ

section

variable {κ : Type} (h : MinerHandler κ)

def Miner.setBlockTemplate (m : Miner κ) (t : BlockTemplate) (rand : UInt32) : Miner κ :=
  { m with
    mTemplate := t.bl
    mDiffic := t.di
    mHeight := t.height
    mTemplateNo := m.mTemplateNo + 1
    mStarterNonce := rand }

def Miner.extraNonce (m : Miner κ) : Blob :=
  m.mExtraMessages.getD m.currentExtraMessageIndex.toNat (h.projectVersionLong ++ [124])

def Miner.requestBlockTemplate (m : Miner κ) (rand : UInt32) : Miner κ :=
  match h.getBlockTemplate m.mBc m.mMineAddress (m.extraNonce h) m.donationDecision
      m.mAliasToApplyInBlock with
  | none => m
  | some t => m.setBlockTemplate t rand

def Miner.validateAliasInfo (m : Miner κ) : Miner κ :=
  match h.getAliasInfo m.mBc m.mAliasToApplyInBlock.mAlias with
  | some _ => { m with mAliasToApplyInBlock := AliasInfo.empty }
  | none => m

/-- `0-9`, `a-z`, `-` and `.`. -/
def aliasAlphabet (ch : UInt8) : Bool :=
  ch == 45 || ch == 46 || (48 ≤ ch && ch ≤ 57) || (97 ≤ ch && ch ≤ 122)

def validateAliasName (al : Blob) : Bool :=
  al.length ≤ 255 && al.all aliasAlphabet

/-- The locked part of `set_alias_info`. The chain was asked for the name before
the lock was taken and may have changed since, so only the check of the name
itself is left of what came before. -/
def Miner.setAliasInfo (m : Miner κ) (ai : AliasInfo) : Option (Miner κ) :=
  if validateAliasName ai.mAlias then some { m with mAliasToApplyInBlock := ai } else none

/-- A worker takes whatever alias is waiting. -/
def Miner.takeAlias (m : Miner κ) (w : Worker) : Miner κ × Worker :=
  if m.mAliasToApplyInBlock.mAlias.length ≠ 0 then
    ({ m with mAliasToApplyInBlock := AliasInfo.empty },
      { w with aiLocal := m.mAliasToApplyInBlock })
  else (m, { w with aiLocal := AliasInfo.empty })

/-- After a block that was refused a worker puts back what it took. -/
def Miner.putBack (m : Miner κ) (ai : AliasInfo) : Miner κ :=
  if ai.mAlias.length ≠ 0 then { m with mAliasToApplyInBlock := ai } else m

/-- The alias a coinbase registers has the name of `ai`, which is how the worker
tells whether `ai` was committed. -/
def commits (env : Env) (b : Block) (ai : AliasInfo) : Bool :=
  match parseAndValidateTxExtra env b.minerTx.toTransactionPrefix with
  | .ok (_, tei) => tei.mAlias.mAlias == ai.mAlias
  | .error _ => false

inductive MinerEvent (κ : Type) where
  | setAliasInfo (ai : AliasInfo)
  | validateAliasInfo
  | requestBlockTemplate (rand : UInt32)
  | chainMoves (c : κ)
  | compare (i : Nat)
  | copy (i : Nat)
  | record (i : Nat)
  | restart (i : Nat)
  | gate (i : Nat)
  | hash (i : Nat) (lucky : Bool)
  | take (i : Nat)
  | add (i : Nat)
  | handled (i : Nat) (missedTxs : Bool)

def Miner.setWorker (m : Miner κ) (i : Nat) (w : Worker) : Miner κ :=
  { m with mThreads := m.mThreads.set i w }

/-- The next part of the loop, for a worker that stands before it. -/
def Miner.worker (m : Miner κ) (i : Nat) (pc : WorkerPc) (next : Worker → Option (Miner κ)) :
    Option (Miner κ) :=
  match m.mThreads[i]? with
  | none => none
  | some w => if w.pc = pc then next w else none

/-- `handle_block_found` returns: true for a block that went to the main chain,
unless its transactions are gone again by then. -/
def Miner.handled (m : Miner κ) (i : Nat) (missedTxs : Bool) (w : Worker) : Option (Miner κ) :=
  match w.pc with
  | .handling added =>
    let next := { w with pc := .loop, nonce := w.nonce + m.mThreadsTotal.toUInt64 }
    if added && !missedTxs then some (m.setWorker i next)
    else some ({ m.putBack w.aiLocal with
      currentExtraMessageIndex := m.currentExtraMessageIndex - 1 }.setWorker i next)
  | _ => none

def Miner.step : MinerEvent κ → Miner κ → Option (Miner κ)
  | .setAliasInfo ai, m => m.setAliasInfo ai
  | .validateAliasInfo, m => some (m.validateAliasInfo h)
  | .requestBlockTemplate rand, m => some (m.requestBlockTemplate h rand)
  | .chainMoves c, m => some { m with mBc := c }
  | .compare i, m => m.worker i .loop fun w =>
    if w.localTemplateVer ≠ m.mTemplateNo then some (m.setWorker i { w with pc := .copy })
    else some (m.setWorker i { w with pc := .gate })
  | .copy i, m => m.worker i .copy fun w =>
    some (m.setWorker i
      { w with pc := .record, b := m.mTemplate, localDiff := m.mDiffic, height := m.mHeight })
  | .record i, m => m.worker i .record fun w =>
    some (m.setWorker i { w with pc := .restart, localTemplateVer := m.mTemplateNo })
  | .restart i, m => m.worker i .restart fun w =>
    some (m.setWorker i
      { w with pc := .gate, nonce := (m.mStarterNonce + UInt32.ofNat i).toUInt64 })
  | .gate i, m => m.worker i .gate fun w =>
    if w.localTemplateVer = 0 then some (m.setWorker i { w with pc := .loop })
    else some (m.setWorker i { w with pc := .hash })
  | .hash i lucky, m => m.worker i .hash fun w =>
    if lucky then some (m.setWorker i { w with pc := .found, b := { w.b with nonce := w.nonce } })
    else some (m.setWorker i
      { w with pc := .loop, nonce := w.nonce + m.mThreadsTotal.toUInt64 })
  | .take i, m => m.worker i .found fun w =>
    some ({ (m.takeAlias w).1 with
      currentExtraMessageIndex := m.currentExtraMessageIndex + 1 }.setWorker i
      { (m.takeAlias w).2 with pc := .taken })
  | .add i, m => m.worker i .taken fun w =>
    match h.addNewBlock w.b m.mBc with
    | none => none
    | some (added, c) => some ({ m with mBc := c }.setWorker i { w with pc := .handling added })
  | .handled i missedTxs, m =>
    match m.mThreads[i]? with
    | none => none
    | some w => m.handled i missedTxs w

end

section

variable {κ : Type} {m m' : Miner κ} {i : Nat} {pc : WorkerPc} {w w' : Worker}

theorem Miner.worker_some {next : Worker → Option (Miner κ)} (h : m.worker i pc next = some m') :
    ∃ w, m.mThreads[i]? = some w ∧ w.pc = pc ∧ next w = some m' := by
  unfold Miner.worker at h
  cases hw : m.mThreads[i]? with
  | none =>
    rw [hw] at h
    cases h
  | some w =>
    rw [hw] at h
    by_cases hpc : w.pc = pc
    · exact ⟨w, rfl, hpc, by simpa [hpc] using h⟩
    · simp [hpc] at h

theorem Miner.handled_some {missedTxs : Bool} (h : m.handled i missedTxs w = some m') :
    ∃ added, w.pc = .handling added ∧
      m' = (if added && !missedTxs then m else { m.putBack w.aiLocal with
        currentExtraMessageIndex := m.currentExtraMessageIndex - 1 }).setWorker i
          { w with pc := .loop, nonce := w.nonce + m.mThreadsTotal.toUInt64 } := by
  unfold Miner.handled at h
  split at h
  next added hpc =>
    refine ⟨added, hpc, ?_⟩
    split at h
    next hfound =>
      rw [if_pos hfound]
      exact (Option.some.inj h).symm
    next hfound =>
      rw [if_neg hfound]
      exact (Option.some.inj h).symm
  next => cases h

theorem Miner.step_handled {h : MinerHandler κ} {missedTxs : Bool}
    (hstep : Miner.step h (.handled i missedTxs) m = some m') :
    ∃ w added, m.mThreads[i]? = some w ∧ w.pc = .handling added ∧
      m' = (if added && !missedTxs then m else { m.putBack w.aiLocal with
        currentExtraMessageIndex := m.currentExtraMessageIndex - 1 }).setWorker i
          { w with pc := .loop, nonce := w.nonce + m.mThreadsTotal.toUInt64 } := by
  cases hw : m.mThreads[i]? with
  | none => simp [Miner.step, hw] at hstep
  | some w =>
    have hhandled : m.handled i missedTxs w = some m' := by simpa [Miner.step, hw] using hstep
    obtain ⟨added, hpc, hm'⟩ := Miner.handled_some hhandled
    exact ⟨w, added, rfl, hpc, hm'⟩

/-- The threads after one of them has moved. -/
theorem Miner.mem_setWorker (h : w ∈ (m.setWorker i w').mThreads) : w ∈ m.mThreads ∨ w = w' :=
  List.mem_or_eq_of_mem_set h

end

end DarknetSpace
