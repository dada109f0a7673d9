import DarknetSpace.Lib.Runs
import DarknetSpace.Miner.SimpleMiner
import DarknetSpace.Format.Difficulty

/-!
# A pass of the external miner (`simpleminer::run`)

A pass starts a worker thread for every share of the nonces, waits until one of
them has found something or the time is up, joins them all, and submits the first
of their results that passes again. A worker takes blocks of `attempts_per_loop`
nonces in turn with the others and leaves what it found as an offset, in a slot
where zero means nothing. The first nonce of the first worker has the offset zero.

Each step of a worker is an event, and so is the end of the waiting; a run is any
order of them.

Main result: `found_share_submitted_iff`, for every number of threads, nonces and order
of the steps. What a worker has tried is a part of its own share of the nonces, and the
shares of different workers have nothing in common; so a share is found once, and lost
only if its offset is the one that means nothing.
-/

namespace DarknetSpace

open Runs

def attemptsPerLoop : Nat := 5000

theorem attemptsPerLoop_pos : 0 < attemptsPerLoop := by
  unfold attemptsPerLoop
  omega

/-- `job_details_native`. -/
structure MiningJob where
  blob : Blob
  difficulty : UInt64
  jobId : Blob
  prevHi : HeightInfo

/-- What a pass works on. `m_fast_scratchpad` is a copy of `m_scratchpad` in
memory of its own. -/
structure ShareWork where
  getBlobLonghash : Blob → UInt64 → (Nat → Hash) → Hash
  mJob : MiningJob
  mFastScratchpad : List Hash
  mScratchpad : List Hash
  mPoolSessionId : Blob
  mThreadsTotal : Nat

namespace ShareWork

/-- No more than 128 threads. -/
def threads (e : ShareWork) : Nat := min e.mThreadsTotal 128

/-- The nonce of the job, and a million. -/
def startNonce (e : ShareWork) : UInt64 :=
  UInt64.ofNat (podOfBytes ((e.mJob.blob.drop 1).take 8)) + 1000000

/-- The hash of the job with that nonce, over one of the two pads. -/
def longhash (e : ShareWork) (pad : List Hash) (nonce : UInt64) : Hash :=
  e.getBlobLonghash (e.mJob.blob.take 1 ++ bytesOfPod 8 nonce.toNat ++ e.mJob.blob.drop 9)
    (e.mJob.prevHi.height + 1) fun index => pad.getD (index % e.mScratchpad.length) 0

def passes (e : ShareWork) (pad : List Hash) (nonce : UInt64) : Bool :=
  checkHash (e.longhash pad nonce) (BitVec.ofNat 128 e.mJob.difficulty.toNat)

end ShareWork

/-! ## Workers -/

/-- Where a worker is. It is in the middle of its two loops, storing what it
found, or has left: by `return`, or because of the reset. -/
inductive ShareWorkerPc where
  | loopHead
  | attempt (i : Nat)
  | storeResult
  | storeDone
  | storeReset
  | returned
  | stopped
  deriving DecidableEq

/-- The offset is a `uint32_t`; it stands here as it would be without wrapping. -/
structure ShareWorker where
  pc : ShareWorkerPc
  nonceOffset : Nat
  deriving DecidableEq

structure MiningPass where
  workers : List ShareWorker
  results : List UInt32
  doReset : Bool
  done : Bool
  mHashesDone : UInt64
  deriving DecidableEq

inductive PassEvent where
  | worker (i : Nat)
  /-- The waiting is over, one way or the other. -/
  | reset

def ShareWorker.offset (w : ShareWorker) : UInt32 := UInt32.ofNat w.nonceOffset

namespace ShareWork

/-- `start_nonce + nonce_offset`. -/
def nonceAt (e : ShareWork) (offset : UInt32) : UInt64 := e.startNonce + offset.toUInt64

/-- The threads as they are started. -/
def startPass (e : ShareWork) : MiningPass where
  workers := (List.range e.threads).map fun i => ⟨.loopHead, i * attemptsPerLoop⟩
  results := List.replicate e.threads 0
  doReset := false
  done := false
  mHashesDone := 0

/-- One step of `worker_thread`. -/
def workerStep (e : ShareWork) (i : Nat) (w : ShareWorker) (p : MiningPass) : Option MiningPass :=
  let goTo (pc : ShareWorkerPc) : List ShareWorker := p.workers.set i { w with pc := pc }
  match w.pc with
  | .loopHead =>
    if p.doReset then some { p with workers := goTo .stopped }
    else
      some { p with
        workers := goTo (.attempt 0)
        mHashesDone := p.mHashesDone + UInt64.ofNat attemptsPerLoop }
  | .attempt k =>
    if e.passes e.mFastScratchpad (e.nonceAt w.offset) then
      some { p with workers := goTo .storeResult }
    else if k + 1 < attemptsPerLoop then
      some { p with workers := p.workers.set i ⟨.attempt (k + 1), w.nonceOffset + 1⟩ }
    else
      let nonceOffset := w.nonceOffset + 1 + (e.threads - 1) * attemptsPerLoop
      some { p with workers := p.workers.set i ⟨.loopHead, nonceOffset⟩ }
  | .storeResult => some { p with workers := goTo .storeDone, results := p.results.set i w.offset }
  | .storeDone => some { p with workers := goTo .storeReset, done := true }
  | .storeReset => some { p with workers := goTo .returned, doReset := true }
  | .returned | .stopped => none

def passStep (e : ShareWork) : PassEvent → MiningPass → Option MiningPass
  | .worker i, p => p.workers[i]?.bind fun w => e.workerStep i w p
  | .reset, p => some { p with doReset := true }

end ShareWork

/-- Every thread has been joined. -/
def MiningPass.Joined (p : MiningPass) : Prop :=
  ∀ w ∈ p.workers, w.pc = .returned ∨ w.pc = .stopped

instance (p : MiningPass) : Decidable p.Joined :=
  inferInstanceAs (Decidable (∀ w ∈ p.workers, w.pc = .returned ∨ w.pc = .stopped))

/-! ## Submitting -/

/-- `COMMAND_RPC_SUBMITSHARE::request`; the result goes out in hexadecimal. -/
structure SubmitShare where
  id : Blob
  nonce : UInt64
  jobId : Blob
  result : Hash

/-- The loop over the results: one submission at most. -/
def ShareWork.submitShare (e : ShareWork) : List UInt32 → Option SubmitShare
  | [] => none
  | result :: rest =>
    if result ≠ 0 ∧ e.passes e.mScratchpad (e.nonceAt result) = true then
      some
        { id := e.mPoolSessionId
          nonce := e.nonceAt result
          jobId := e.mJob.jobId
          result := e.longhash e.mScratchpad (e.nonceAt result) }
    else e.submitShare rest

namespace ShareWork

variable {e : ShareWork}

theorem submitShare_of_mem {results : List UInt32} {result : UInt32} (hmem : result ∈ results)
    (hne : result ≠ 0) (hpass : e.passes e.mScratchpad (e.nonceAt result) = true) :
    ∃ share, e.submitShare results = some share ∧ e.passes e.mScratchpad share.nonce = true := by
  induction results with
  | nil => cases hmem
  | cons first rest ih =>
    unfold submitShare
    by_cases hfirst : first ≠ 0 ∧ e.passes e.mScratchpad (e.nonceAt first) = true
    · rw [if_pos hfirst]
      exact ⟨_, rfl, hfirst.2⟩
    · rw [if_neg hfirst]
      rcases List.mem_cons.1 hmem with rfl | hrest
      · exact absurd ⟨hne, hpass⟩ hfirst
      · exact ih hrest

theorem submitShare_zeros (n : Nat) : e.submitShare (List.replicate n 0) = none := by
  induction n with
  | zero => rfl
  | succ n ih =>
    rw [List.replicate_succ]
    unfold submitShare
    rw [if_neg fun hboth => hboth.1 rfl, ih]

/-! ## What a worker has and where it is -/

/-- The part of the nonces a worker is in, and what it has found. -/
def Sound (e : ShareWork) (i : Nat) (result : UInt32) (w : ShareWorker) : Prop :=
  match w.pc with
  | .loopHead => ∃ b, w.nonceOffset = (b * e.threads + i) * attemptsPerLoop
  | .attempt k =>
    k < attemptsPerLoop ∧ ∃ b, w.nonceOffset = (b * e.threads + i) * attemptsPerLoop + k
  | .storeResult => e.passes e.mFastScratchpad (e.nonceAt w.offset) = true
  | .storeDone | .storeReset | .returned =>
    e.passes e.mFastScratchpad (e.nonceAt w.offset) = true ∧ result = w.offset
  | .stopped => True

/-- Every thread has its slot. -/
structure PassSound (e : ShareWork) (p : MiningPass) : Prop where
  count : p.workers.length = e.threads
  sound : ∀ i w, p.workers[i]? = some w → ∃ result, p.results[i]? = some result ∧
    e.Sound i result w

theorem startPass_sound (e : ShareWork) : PassSound e e.startPass := by
  constructor
  · unfold startPass
    rw [List.length_map, List.length_range]
  · intro i w hw
    obtain ⟨j, hj, rfl⟩ := List.getElem?_map .. ▸ hw |> Option.map_eq_some_iff.1
    obtain ⟨hlt, rfl⟩ := List.getElem?_eq_some_iff.1 hj
    rw [List.getElem_range]
    rw [List.length_range] at hlt
    refine ⟨0, ?_, 0, ?_⟩
    · show (List.replicate e.threads (0 : UInt32))[i]? = some 0
      rw [List.getElem?_replicate, if_pos hlt]
    · rw [Nat.zero_mul, Nat.zero_add]

/-- A step moves one worker and writes no slot but its own. -/
theorem PassSound.set {p : MiningPass} (h : PassSound e p) {i : Nat} {w : ShareWorker}
    {result : UInt32} {results : List UInt32} {doReset done : Bool} {hashes : UInt64}
    (hi : results[i]? = some result) (hsound : e.Sound i result w)
    (hothers : ∀ j, j ≠ i → results[j]? = p.results[j]?) :
    PassSound e ⟨p.workers.set i w, results, doReset, done, hashes⟩ := by
  constructor
  · show (p.workers.set i w).length = _
    rw [List.length_set, h.count]
  · intro j w' hw'
    by_cases hj : j = i
    · subst hj
      have hlt : j < p.workers.length := by
        have hlt := (List.getElem?_eq_some_iff.1 hw').1
        rwa [List.length_set] at hlt
      change (p.workers.set j w)[j]? = _ at hw'
      rw [List.getElem?_set_self hlt] at hw'
      cases hw'
      exact ⟨result, hi, hsound⟩
    · change (p.workers.set i w)[j]? = _ at hw'
      rw [List.getElem?_set_ne (Ne.symm hj)] at hw'
      obtain ⟨r, hr, hs⟩ := h.sound j w' hw'
      exact ⟨r, (hothers j hj).trans hr, hs⟩

theorem workerStep_sound {p p' : MiningPass} (h : PassSound e p) {i : Nat} {w : ShareWorker}
    (hw : p.workers[i]? = some w) (hstep : e.workerStep i w p = some p') : PassSound e p' := by
  obtain ⟨result, hresult, hsound⟩ := h.sound i w hw
  have hkeep : ∀ j, j ≠ i → p.results[j]? = p.results[j]? := fun _ _ => rfl
  -- there is a worker, so the count of threads is not zero
  have hpos : 0 < e.threads := by
    have hlt := (List.getElem?_eq_some_iff.1 hw).1
    rw [h.count] at hlt
    omega
  obtain ⟨pc, nonceOffset⟩ := w
  unfold workerStep at hstep
  unfold Sound at hsound
  cases pc with
  | loopHead =>
    simp only at hstep hsound
    by_cases hreset : p.doReset = true
    · rw [if_pos hreset] at hstep
      cases hstep
      exact h.set (w := ⟨.stopped, nonceOffset⟩) hresult trivial hkeep
    · rw [if_neg hreset] at hstep
      cases hstep
      obtain ⟨b, hb⟩ := hsound
      exact h.set (w := ⟨.attempt 0, nonceOffset⟩) hresult
        ⟨attemptsPerLoop_pos, b, by rw [hb, Nat.add_zero]⟩ hkeep
  | attempt k =>
    simp only at hstep hsound
    obtain ⟨hk, b, hb⟩ := hsound
    split at hstep
    · next hpass =>
      cases hstep
      -- a nonce that passes is stored before anyone is told
      exact h.set (w := ⟨.storeResult, nonceOffset⟩) hresult hpass hkeep
    · split at hstep
      · next hmore =>
        cases hstep
        exact h.set (w := ⟨.attempt (k + 1), nonceOffset + 1⟩) hresult
          ⟨hmore, b, by show nonceOffset + 1 = _; rw [hb, Nat.add_assoc]⟩ hkeep
      · -- the block is done, and the others' blocks are skipped
        cases hstep
        refine h.set (w := ⟨.loopHead, _⟩) hresult ⟨b + 1, ?_⟩ hkeep
        obtain ⟨t, ht⟩ : ∃ t, e.threads = t + 1 := ⟨e.threads - 1, by omega⟩
        have hlast : k + 1 = attemptsPerLoop := by omega
        show nonceOffset + 1 + (e.threads - 1) * attemptsPerLoop = _
        rw [hb, ht, Nat.add_assoc _ k 1, hlast, Nat.add_sub_cancel]
        ring
  | storeResult =>
    simp only at hstep hsound
    cases hstep
    have hlt := (List.getElem?_eq_some_iff.1 hresult).1
    exact h.set (List.getElem?_set_self hlt) ⟨hsound, rfl⟩
      fun j hj => List.getElem?_set_ne (Ne.symm hj)
  | storeDone | storeReset =>
    simp only at hstep hsound
    cases hstep
    exact h.set hresult hsound hkeep
  | returned | stopped => cases hstep

theorem passStep_sound (a : PassEvent) (p p' : MiningPass) (h : PassSound e p)
    (hstep : e.passStep a p = some p') : PassSound e p' := by
  cases a with
  | worker i =>
    obtain ⟨w, hw, hstep⟩ := Option.bind_eq_some_iff.1 hstep
    exact workerStep_sound h hw hstep
  | reset =>
    cases hstep
    exact ⟨h.count, h.sound⟩

/-- Of every state of a pass. -/
theorem run_sound {events : List PassEvent} {p : MiningPass}
    (h : run e.passStep events e.startPass = some p) : PassSound e p :=
  run_invariant passStep_sound e.startPass_sound h

/-- A thread that came back with something has left it in its slot. -/
theorem PassSound.submits {p : MiningPass} (h : PassSound e p)
    (hpads : e.mFastScratchpad = e.mScratchpad)
    (hfirst : e.passes e.mScratchpad e.startNonce = false)
    (hfound : ∃ w ∈ p.workers, w.pc = .returned) :
    ∃ share, e.submitShare p.results = some share ∧ e.passes e.mScratchpad share.nonce = true := by
  obtain ⟨w, hmem, hpc⟩ := hfound
  obtain ⟨i, hi⟩ := List.getElem?_of_mem hmem
  obtain ⟨result, hresult, hsound⟩ := h.sound i w hi
  unfold Sound at hsound
  rw [hpc] at hsound
  obtain ⟨hpass, hslot⟩ := hsound
  rw [hpads, ← hslot] at hpass
  have hne : result ≠ 0 := by
    rintro rfl
    unfold nonceAt at hpass
    rw [show (0 : UInt32).toUInt64 = 0 from rfl, UInt64.add_zero, hfirst] at hpass
    cases hpass
  exact submitShare_of_mem (List.mem_of_getElem? hresult) hne hpass

/-- Two workers are never at the same nonce, at whatever times. -/
theorem PassSound.apart {p p' : MiningPass} (h : PassSound e p) (h' : PassSound e p') {i j k l : Nat}
    {w w' : ShareWorker} (hij : i ≠ j) (hw : p.workers[i]? = some w)
    (hw' : p'.workers[j]? = some w') (hpc : w.pc = .attempt k) (hpc' : w'.pc = .attempt l)
    (hlt : w.nonceOffset < 2 ^ 32) (hlt' : w'.nonceOffset < 2 ^ 32) :
    e.nonceAt w.offset ≠ e.nonceAt w'.offset := by
  have hi := (List.getElem?_eq_some_iff.1 hw).1
  have hj := (List.getElem?_eq_some_iff.1 hw').1
  rw [h.count] at hi
  rw [h'.count] at hj
  obtain ⟨result, -, hsound⟩ := h.sound i w hw
  obtain ⟨result', -, hsound'⟩ := h'.sound j w' hw'
  unfold Sound at hsound hsound'
  rw [hpc] at hsound
  rw [hpc'] at hsound'
  obtain ⟨hk, b, hb⟩ := hsound
  obtain ⟨hl, b', hb'⟩ := hsound'
  intro hsame
  have hoffset : w.nonceOffset = w'.nonceOffset := by
    have hcancel : w.offset.toUInt64 = w'.offset.toUInt64 := (UInt64.add_right_inj _).1 hsame
    have hnat := congrArg UInt64.toNat hcancel
    rw [UInt32.toNat_toUInt64, UInt32.toNat_toUInt64] at hnat
    unfold ShareWorker.offset at hnat
    rwa [UInt32.toNat_ofNat_of_lt' hlt, UInt32.toNat_ofNat_of_lt' hlt'] at hnat
  -- the same offset is in the same block, and a block has one worker
  have hblock : b * e.threads + i = b' * e.threads + j := by
    have hdiv : ((b * e.threads + i) * attemptsPerLoop + k) / attemptsPerLoop =
        ((b' * e.threads + j) * attemptsPerLoop + l) / attemptsPerLoop := by
      rw [← hb, ← hb', hoffset]
    rwa [Nat.mul_comm _ attemptsPerLoop, Nat.mul_add_div attemptsPerLoop_pos,
      Nat.mul_comm _ attemptsPerLoop, Nat.mul_add_div attemptsPerLoop_pos,
      Nat.div_eq_of_lt hk, Nat.div_eq_of_lt hl, Nat.add_zero, Nat.add_zero] at hdiv
  have hmod : (e.threads * b + i) % e.threads = (e.threads * b' + j) % e.threads := by
    rw [Nat.mul_comm _ b, Nat.mul_comm _ b', hblock]
  rw [Nat.mul_add_mod, Nat.mul_add_mod, Nat.mod_eq_of_lt hi, Nat.mod_eq_of_lt hj] at hmod
  exact hij hmod

/-! ## The order that loses a share -/

/-- After the reset every worker that is between two blocks leaves. -/
theorem stop_others (tail : List ShareWorker) (hhead : ∀ w ∈ tail, w.pc = .loopHead)
    (front : List ShareWorker) (results : List UInt32) (hashes : UInt64) :
    ∃ events, run e.passStep events ⟨front ++ tail, results, true, true, hashes⟩ =
      some ⟨front ++ tail.map fun w => { w with pc := .stopped }, results, true, true, hashes⟩ := by
  induction tail generalizing front with
  | nil => exact ⟨[], rfl⟩
  | cons w rest ih =>
    obtain ⟨events, hevents⟩ := ih (fun w' hw' => hhead w' (List.mem_cons_of_mem w hw'))
      (front ++ [{ w with pc := .stopped }])
    have hpc := hhead w List.mem_cons_self
    have hget : (front ++ w :: rest)[front.length]? = some w := by
      rw [List.getElem?_append_right (Nat.le_refl _), Nat.sub_self]
      rfl
    have hstep : e.passStep (.worker front.length) ⟨front ++ w :: rest, results, true, true, hashes⟩ =
        some ⟨front ++ [{ w with pc := .stopped }] ++ rest, results, true, true, hashes⟩ := by
      unfold passStep
      simp only
      rw [hget, Option.bind_some]
      unfold workerStep
      rw [hpc]
      simp only
      rw [if_pos trivial, List.set_append_right _ _ (Nat.le_refl _), Nat.sub_self, List.set_cons_zero,
        List.append_assoc, List.singleton_append]
    refine ⟨.worker front.length :: events, ?_⟩
    show (e.passStep _ _).bind (run e.passStep events) = _
    rw [hstep, Option.bind_some, hevents, List.append_assoc, List.map_cons, List.singleton_append]

/-- The first worker finds its first nonce before the others have begun: all the
slots stay empty. -/
theorem loses_first (hthreads : 0 < e.mThreadsTotal)
    (hpass : e.passes e.mFastScratchpad e.startNonce = true) :
    ∃ events p, run e.passStep events e.startPass = some p ∧ p.Joined ∧
      (∃ w ∈ p.workers, w.pc = .returned) ∧ e.submitShare p.results = none := by
  obtain ⟨n, hn⟩ : ∃ n, e.threads = n + 1 := by
    have hpos : 0 < e.threads := by
      unfold threads
      omega
    exact ⟨e.threads - 1, by omega⟩
  have hstart : e.startPass = ⟨⟨.loopHead, 0⟩ ::
      (List.range n).map fun i => ⟨.loopHead, (i + 1) * attemptsPerLoop⟩,
      0 :: List.replicate n 0, false, false, 0⟩ := by
    unfold startPass
    rw [hn, List.range_succ_eq_map, List.map_cons, List.map_map, List.replicate_succ, Nat.zero_mul]
    rfl
  generalize htail : ((List.range n).map fun i =>
    (⟨.loopHead, (i + 1) * attemptsPerLoop⟩ : ShareWorker)) = tail at hstart
  have hhead : ∀ w ∈ tail, w.pc = .loopHead := by
    rw [← htail]
    intro w hw
    obtain ⟨i, -, rfl⟩ := List.mem_map.1 hw
    rfl
  have hzero : e.passes e.mFastScratchpad (e.nonceAt 0) = true := by
    unfold nonceAt
    rw [show (0 : UInt32).toUInt64 = 0 from rfl, UInt64.add_zero]
    exact hpass
  have hfirst : run e.passStep (List.replicate 5 (.worker 0)) e.startPass =
      some ⟨⟨.returned, 0⟩ :: tail, 0 :: List.replicate n 0, true, true,
        UInt64.ofNat attemptsPerLoop⟩ := by
    rw [hstart]
    simp [run, passStep, workerStep, List.replicate, hzero, ShareWorker.offset]
  obtain ⟨events, hevents⟩ := stop_others tail hhead [⟨.returned, 0⟩] (0 :: List.replicate n 0)
    (UInt64.ofNat attemptsPerLoop)
  refine ⟨_, _, (run_append hfirst).trans hevents, ?_, ?_, ?_⟩
  · intro w hw
    rcases List.mem_cons.1 hw with rfl | hw
    · exact .inl rfl
    · obtain ⟨w', -, rfl⟩ := List.mem_map.1 hw
      exact .inr rfl
  · exact ⟨⟨.returned, 0⟩, List.mem_cons_self, rfl⟩
  · exact submitShare_zeros (n + 1)

end ShareWork

/-- Whatever the order of the threads, a pass in which one of them has found
something submits a share that passes, exactly when the first nonce of all does
not pass. No two threads are ever at one nonce. -/
theorem found_share_submitted_iff (e : ShareWork) (hthreads : 0 < e.mThreadsTotal)
    (hpads : e.mFastScratchpad = e.mScratchpad) :
    ((∀ events p, run e.passStep events e.startPass = some p → p.Joined →
        (∃ w ∈ p.workers, w.pc = .returned) →
        ∃ share, e.submitShare p.results = some share ∧
          e.passes e.mScratchpad share.nonce = true) ↔
      e.passes e.mScratchpad e.startNonce = false) ∧
    (∀ events events' p p', run e.passStep events e.startPass = some p →
      run e.passStep events' e.startPass = some p' →
      ∀ (i j k l : Nat) (w w' : ShareWorker), i ≠ j → p.workers[i]? = some w → p'.workers[j]? = some w' →
        w.pc = .attempt k → w'.pc = .attempt l →
        w.nonceOffset < 2 ^ 32 → w'.nonceOffset < 2 ^ 32 →
        e.nonceAt w.offset ≠ e.nonceAt w'.offset) := by
  refine ⟨⟨?_, ?_⟩, ?_⟩
  · intro hall
    by_contra hpass
    rw [Bool.not_eq_false, ← hpads] at hpass
    obtain ⟨events, p, hrun, hjoined, hfound, hnone⟩ := ShareWork.loses_first hthreads hpass
    obtain ⟨share, hshare, -⟩ := hall events p hrun hjoined hfound
    rw [hnone] at hshare
    cases hshare
  · intro hfirst events p hrun _ hfound
    exact (ShareWork.run_sound hrun).submits hpads hfirst hfound
  · intro events events' p p' hrun hrun' i j k l w w' hij hw hw' hpc hpc' hlt hlt'
    exact (ShareWork.run_sound hrun).apart (ShareWork.run_sound hrun') hij hw hw' hpc hpc' hlt hlt'

namespace Devnet

/-- One job, of which only the nonce at that offset passes. -/
def shareWork (threads : Nat) (offset : UInt64) : ShareWork where
  getBlobLonghash blob _ _ :=
    if podOfBytes ((blob.drop 1).take 8) = 1000000 + offset.toNat then 0 else BitVec.allOnes 256
  mJob := ⟨List.replicate 80 0, 2, [], ⟨0, 0⟩⟩
  mFastScratchpad := [0]
  mScratchpad := [0]
  mPoolSessionId := []
  mThreadsTotal := threads

/-- The first worker to its end, and the second behind it. -/
def shareOrder (steps : Nat) : List PassEvent := List.replicate steps (.worker 0) ++ [.worker 1]

end Devnet

/-- The second nonce is found, and submitted. -/
theorem found_share_submitted_second :
    ∃ share, (Devnet.shareWork 2 1).submitShare [1, 0] = some share ∧
      (Devnet.shareWork 2 1).passes [0] share.nonce = true := by
  have hfirst : (Devnet.shareWork 2 1).passes [0] (Devnet.shareWork 2 1).startNonce = false := by
    decide +kernel
  have hrun : run (Devnet.shareWork 2 1).passStep (Devnet.shareOrder 6)
      (Devnet.shareWork 2 1).startPass =
        some ⟨[⟨.returned, 1⟩, ⟨.stopped, 5000⟩], [1, 0], true, true, 5000⟩ := by
    decide +kernel
  obtain ⟨hsubmits, -⟩ := found_share_submitted_iff (Devnet.shareWork 2 1) (by decide) rfl
  exact hsubmits.2 hfirst _ _ hrun (by decide) ⟨⟨.returned, 1⟩, by decide, rfl⟩

/-- The first nonce is found, and nothing is submitted. -/
theorem found_share_lost :
    run (Devnet.shareWork 2 0).passStep (Devnet.shareOrder 5) (Devnet.shareWork 2 0).startPass =
        some ⟨[⟨.returned, 0⟩, ⟨.stopped, 5000⟩], [0, 0], true, true, 5000⟩ ∧
      (Devnet.shareWork 2 0).passes [0] ((Devnet.shareWork 2 0).nonceAt 0) = true ∧
      ((Devnet.shareWork 2 0).submitShare [0, 0]).isNone = true := by
  decide +kernel

end DarknetSpace
