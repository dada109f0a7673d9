import DarknetSpace.Net.End

/-!
# Two ends of a connection

Each end runs on its own and the network carries what is written, in order, in
pieces of its own choosing. What one end receives is what the other has sent, and
the `n`-th callback of one is given what the other returned for the `n`-th request.

`Flow` is the invariant of one direction: the packets sent and not received are
the bytes in the cache of the receiver, on the wire and in the queue of the
sender. With it no response strays (`End.step_strayed`): the other end has sent no
more of them than it was sent requests. So what `Kept` says of one end with the
other left open becomes, for two ends that are joined, `Link.responses_match`.

A packet can be torn: the send queue may take its head and refuse its body. What
follows is then read as its body. The results are about connections on which this
has not happened.
-/

namespace DarknetSpace.Levin

open Framing AsyncProtocolHandler

namespace AsyncProtocolHandler

variable {α κ : Type} {g : Config α κ} {h h' : AsyncProtocolHandler α κ} {ps qs : List Packet}
  {stream : Blob}

/-! ## What sends nothing and receives nothing -/

/-- Nothing is sent and nothing comes in. -/
structure Quiet (h h' : AsyncProtocolHandler α κ) : Prop where
  sent : h'.past.sent = h.past.sent
  torn : h'.past.torn = h.past.torn
  strayed : h'.past.strayed = h.past.strayed
  issued : h'.past.issued = h.past.issued
  queue : h'.mPserviceEndpoint.mSendQue = h.mPserviceEndpoint.mSendQue
  received : h'.past.received = h.past.received
  mState : h'.mState = h.mState
  mCurrentHead : h'.mCurrentHead = h.mCurrentHead

/-- Two quiet steps in a row. -/
theorem Quiet.trans {h₁ h₂ h₃ : AsyncProtocolHandler α κ} (h₁₂ : Quiet h₁ h₂) (h₂₃ : Quiet h₂ h₃) :
    Quiet h₁ h₃ where
  sent := h₂₃.sent.trans h₁₂.sent
  torn := h₂₃.torn.trans h₁₂.torn
  strayed := h₂₃.strayed.trans h₁₂.strayed
  issued := h₂₃.issued.trans h₁₂.issued
  queue := h₂₃.queue.trans h₁₂.queue
  received := h₂₃.received.trans h₁₂.received
  mState := h₂₃.mState.trans h₁₂.mState
  mCurrentHead := h₂₃.mCurrentHead.trans h₁₂.mCurrentHead

theorem Quiet.emits (hq : Quiet h h') : Emits h h' [] := .of_same hq.sent hq.queue hq.torn

theorem Quiet.refl (h : AsyncProtocolHandler α κ) : Quiet h h :=
  ⟨rfl, rfl, rfl, rfl, rfl, rfl, rfl, rfl⟩

/-- Giving a call up is quiet: the callback's own calls come later. -/
theorem cancel_quiet (h : AsyncProtocolHandler α κ) (x : AnvokeHandler κ) :
    Quiet h (h.cancel g x) := by
  unfold cancel giveError closeUnwaited
  simp only
  split
  · split
    · split <;> exact ⟨rfl, rfl, rfl, rfl, rfl, rfl, rfl, rfl⟩
    · exact ⟨rfl, rfl, rfl, rfl, rfl, rfl, rfl, rfl⟩
  · exact .refl h

/-- Shutting the connection is quiet. -/
theorem shutdown_quiet (h : AsyncProtocolHandler α κ) : Quiet h (h.shutdown g) := by
  have hfold : ∀ (xs : List (AnvokeHandler κ)) (h : AsyncProtocolHandler α κ),
      Quiet h (xs.foldl (cancel g) h) := by
    intro xs
    induction xs with
    | nil => exact .refl
    | cons x xs ih => exact fun h => (cancel_quiet h x).trans (ih _)
  have hall := hfold h.mInvokeResponseHandlers { h with
    mPserviceEndpoint := { h.mPserviceEndpoint with mWasShutdown := true }
    mInvokeResponseHandlers := []
    mProtocolReleased := true }
  exact ⟨hall.sent, hall.torn, hall.strayed, hall.issued, hall.queue, hall.received, hall.mState,
    hall.mCurrentHead⟩

/-- So is closing it. -/
theorem closeConnection_quiet (h : AsyncProtocolHandler α κ) : Quiet h (h.closeConnection g) := by
  unfold closeConnection
  simp only
  split
  · have hall := shutdown_quiet (g := g)
      { h with mPserviceEndpoint := { h.mPserviceEndpoint with mWantCloseConnection := true } }
    exact ⟨hall.sent, hall.torn, hall.strayed, hall.issued, hall.queue, hall.received, hall.mState,
    hall.mCurrentHead⟩
  · exact ⟨rfl, rfl, rfl, rfl, rfl, rfl, rfl, rfl⟩

theorem close_quiet (h : AsyncProtocolHandler α κ) : Quiet h (h.close g) := by
  have hall := closeConnection_quiet (g := g) { h with mCloseCalled := true }
  exact ⟨hall.sent, hall.torn, hall.strayed, hall.issued, hall.queue, hall.received, hall.mState,
    hall.mCurrentHead⟩

/-- Only the first entry of the queue goes. -/
theorem handleWrite_quiet (h : AsyncProtocolHandler α κ) : Quiet { h with
    mPserviceEndpoint := { h.mPserviceEndpoint with mSendQue := h.mPserviceEndpoint.mSendQue.tail } }
    (h.handleWrite g) := by
  unfold handleWrite
  simp only
  split
  · exact shutdown_quiet _
  · exact ⟨rfl, rfl, rfl, rfl, rfl, rfl, rfl, rfl⟩

/-- A timer that fires sends nothing. -/
theorem timerFires_quiet {i : Nat} (ht : h.timerFires i = some h') : Quiet h h' := by
  unfold timerFires at ht
  obtain ⟨x, -, ht⟩ := Option.bind_eq_some_iff.1 ht
  split at ht
  · cases ht
    exact ⟨rfl, rfl, rfl, rfl, rfl, rfl, rfl, rfl⟩
  · cases ht

/-- Nor does its handler. -/
theorem timeout_quiet {i : Nat} (ht : h.timeout g i = some h') : Quiet h h' := by
  unfold timeout at ht
  obtain ⟨cb, -, ht⟩ := Option.bind_eq_some_iff.1 ht
  cases ht
  have htold : Quiet h ({ h with timeouts := h.timeouts.eraseIdx i }.giveError g (close g) cb
      levinErrorConnectionTimedout) := by
    obtain ⟨context, hsame | hclosed⟩ := giveError_cases (g := g)
      { h with timeouts := h.timeouts.eraseIdx i } cb levinErrorConnectionTimedout
    · rw [hsame]
      exact ⟨rfl, rfl, rfl, rfl, rfl, rfl, rfl, rfl⟩
    · rw [hclosed]
      have hall := close_quiet (g := g) { h with
        mConnectionContext := context
        timeouts := h.timeouts.eraseIdx i
        past := h.past.fail cb levinErrorConnectionTimedout }
      exact ⟨hall.sent, hall.torn, hall.strayed, hall.issued, hall.queue, hall.received,
        hall.mState, hall.mCurrentHead⟩
  have hall := htold.trans (close_quiet (g := g) _)
  exact ⟨hall.sent, hall.torn, hall.strayed, hall.issued, hall.queue, hall.received, hall.mState,
    hall.mCurrentHead⟩

theorem Leads.emits (hl : Leads g h h') : ∃ qs, Emits h h' qs :=
  hl.keeps (I := fun h₁ => ∃ qs, Emits h h₁ qs)
    (fun hsent hs => hsent.elim fun _ he => ⟨_, he.trans hs.emits⟩)
    (fun hsent => hsent.elim fun _ he => ⟨_, he.trans (close_quiet _).emits⟩)
    ⟨[], .of_same rfl rfl rfl⟩

/-! ## What receiving sends -/

/-- The response to a request is one packet at most. -/
theorem sendResponse_emits (hsigned : h.mCurrentHead.mSignature = levinSignature) (code : Int32)
    {buffOut : Blob} (hfits : buffOut.length < 2 ^ 64) :
    ∃ qs, Emits h (h.sendResponse code buffOut).2 qs := by
  unfold sendResponse
  simp only
  rcases doSend_cases h.mPserviceEndpoint
      ((responseHead h.mCurrentHead code buffOut).toBytes ++ buffOut) with
    ⟨c, hsend, hque, -⟩ | ⟨-, hsend⟩
  · rw [hsend]
    exact ⟨[], .of_same rfl hque rfl⟩
  · rw [hsend]
    refine ⟨[⟨responseHead h.mCurrentHead code buffOut, buffOut⟩], rfl, fun q hq => ?_,
      ⟨_, rfl, fun _ => by simp [packetsToBytes, Packet.toBytes]⟩, id⟩
    rw [List.mem_singleton.1 hq]
    exact ⟨hsigned, UInt64.toNat_ofNat_of_lt' hfits⟩

/-- What a body makes a handler send. -/
theorem onBody_emits (hsigned : h.mCurrentHead.mSignature = levinSignature) (body : Blob) :
    ∃ qs, Emits h ((h.readBody body).onBody g body).2 qs := by
  have hcalls : ∀ (h₁ : AsyncProtocolHandler α κ) (cs : List (Call κ)), Emits h h₁ [] →
      ∃ qs, Emits h (h₁.calls g cs) qs := by
    intro h₁ cs he
    obtain ⟨qs, he'⟩ := (calls_leads (g := g) h₁ cs).emits
    exact ⟨_, he.trans he'⟩
  unfold onBody
  split
  · unfold onResponse
    split
    · split
      · obtain ⟨qs, he⟩ := hcalls
          { h.readBody body with
            mInvokeResponseHandlers := _
            mConnectionContext := _
            past := (h.readBody body).past.answer _ _ body } _ (.of_same rfl rfl rfl)
        exact ⟨qs, he.sent, he.sound, he.queue, he.torn⟩
      · exact ⟨[], .of_same rfl rfl rfl⟩
    · split <;> exact ⟨[], .of_same rfl rfl rfl⟩
  · split
    · unfold onRequest
      simp only
      generalize hr : g.mPcommandsHandler.invoke _ _ _ = r
      have hfits : r.buffOut.length < 2 ^ 64 := hr ▸ g.mPcommandsHandler.invoke_fits ..
      obtain ⟨qs, he⟩ := (calls_leads (g := g) { h.readBody body with
        mConnectionContext := r.context
        past := (h.readBody body).past.serve h.mCurrentHead.mCommand.toInt32 body r.buffOut }
          r.calls).emits
      have hsame := calls_sameReading (g := g) { h.readBody body with
        mConnectionContext := r.context
        past := (h.readBody body).past.serve h.mCurrentHead.mCommand.toInt32 body r.buffOut } r.calls
      have hsigned' := (congrArg BucketHead2.mSignature hsame.mCurrentHead).trans hsigned
      obtain ⟨qs', he'⟩ := sendResponse_emits hsigned' r.code hfits
      have hall := he.trans he'
      exact ⟨_, hall.sent, hall.sound, hall.queue, hall.torn⟩
    · exact hcalls _ _ (.of_same rfl rfl rfl)

/-! ## What is on its way -/

/-- The packets that `sender` has sent and `r` has not received are what `r` has not used yet
of its cache, and then `out`. -/
structure Flow (sender : AsyncProtocolHandler α κ) (out : Blob)
    (r : Reader (AsyncProtocolHandler α κ) UInt8) : Prop where
  sound : ∀ p ∈ sender.past.sent, p.Sound
  reads : Holds (fun h cache => ∃ ps, sender.past.sent = h.past.received ++ ps ∧
    h.Awaits ps (cache ++ out)) (fun h => h.past.received <+: sender.past.sent) r

/-- What has come in is a beginning of what the other side has sent. -/
theorem Flow.received {sender : AsyncProtocolHandler α κ} {out : Blob}
    {r : Reader (AsyncProtocolHandler α κ) UInt8} (hf : Flow sender out r) :
    r.state.past.received <+: sender.past.sent := by
  cases r with
  | waiting h cache =>
    obtain ⟨ps, hps, -⟩ := hf.reads
    exact ⟨ps, hps.symm⟩
  | stopped h => exact hf.reads

/-- More packets are sent while some are still to come. -/
theorem Awaits.append (ha : h.Awaits ps stream) (qs : List Packet) :
    h.Awaits (ps ++ qs) (stream ++ packetsToBytes qs) := by
  unfold Awaits at ha ⊢
  cases hstate : h.mState with
  | head =>
    simp only [hstate] at ha ⊢
    rw [ha, packetsToBytes_append]
  | body =>
    simp only [hstate] at ha ⊢
    obtain ⟨p, ps', rfl, hhead, rfl⟩ := ha
    exact ⟨p, ps' ++ qs, rfl, hhead, by rw [packetsToBytes_append, List.append_assoc]⟩

/-- More is sent. -/
theorem Flow.sends {sender sender' : AsyncProtocolHandler α κ} {out : Blob}
    {r : Reader (AsyncProtocolHandler α κ) UInt8} (hf : Flow sender out r)
    (hsent : sender'.past.sent = sender.past.sent ++ qs) (hsound : ∀ q ∈ qs, q.Sound) :
    Flow sender' (out ++ packetsToBytes qs) r where
  sound p hp := by
    rw [hsent] at hp
    exact (List.mem_append.1 hp).elim (hf.sound p) (hsound p)
  reads := by
    cases r with
    | waiting h cache =>
      obtain ⟨ps, hps, ha⟩ := hf.reads
      refine ⟨ps ++ qs, by rw [hsent, hps, List.append_assoc], ?_⟩
      rw [← List.append_assoc]
      exact ha.append qs
    | stopped h =>
      have hreceived : h.past.received <+: sender.past.sent := hf.reads
      show h.past.received <+: sender'.past.sent
      rw [hsent]
      exact hreceived.trans (List.prefix_append ..)

/-- The receiver does something else. -/
theorem Flow.quiet {sender : AsyncProtocolHandler α κ} {out : Blob}
    {r : Reader (AsyncProtocolHandler α κ) UInt8} (hf : Flow sender out r)
    {f : AsyncProtocolHandler α κ → AsyncProtocolHandler α κ}
    (hreceived : (f r.state).past.received = r.state.past.received)
    (hstate : (f r.state).mState = r.state.mState)
    (hhead : (f r.state).mCurrentHead = r.state.mCurrentHead) : Flow sender out (r.map f) where
  sound := hf.sound
  reads := by
    cases r with
    | waiting h cache =>
      obtain ⟨ps, hps, ha⟩ := hf.reads
      refine ⟨ps, by rw [hps]; exact congrArg (· ++ ps) hreceived.symm, ?_⟩
      unfold Awaits at ha ⊢
      rw [show (f h).mState = h.mState from hstate, show (f h).mCurrentHead = h.mCurrentHead from hhead]
      exact ha
    | stopped h =>
      have hread : h.past.received <+: sender.past.sent := hf.reads
      show (f h).past.received <+: sender.past.sent
      rw [show (f h).past.received = h.past.received from hreceived]
      exact hread

/-- What is received is what the other end has sent, and what is sent meanwhile is put into
the queue. -/
theorem Flow.drain {sender : AsyncProtocolHandler α κ} {out cache : Blob}
    (hf : Flow sender out (.waiting h cache)) (fuel : Nat) :
    Flow sender out (Framing.drain (turn g) fuel h cache) ∧
      ∃ qs, Emits h (Framing.drain (turn g) fuel h cache).state qs := by
  have hall : Holds
      (fun h₁ cache => (∃ ps, sender.past.sent = h₁.past.received ++ ps ∧
        h₁.Awaits ps (cache ++ out)) ∧ ∃ qs, Emits h h₁ qs)
      (fun h₁ => h₁.past.received <+: sender.past.sent ∧ ∃ qs, Emits h h₁ qs)
      (Framing.drain (turn g) fuel h cache) := by
    apply drain_keeps
    · rintro h₁ cache h₂ rest ⟨⟨ps, hps, ha⟩, qs, he⟩ ht
      have hsound : ∀ p ∈ ps, p.Sound := fun p hp =>
        hf.sound p (hps ▸ List.mem_append_right _ hp)
      -- a turn takes a head, or the body of the packet whose head was taken
      rcases ha.take hsound ht with ⟨p, -, rfl, ha'⟩ | ⟨p, ps', h₃, rfl, hhead, hbody, rfl, ha'⟩
      · exact ⟨⟨ps, hps, ha'⟩, qs, he.sent, he.sound, he.queue, he.torn⟩
      · obtain ⟨qs', he'⟩ := onBody_emits (g := g) (h := h₁)
          (by rw [hhead]; exact (hsound p (List.mem_cons_self ..)).signed) p.body
        rw [hbody] at he'
        have hnext := he.trans he'
        have hreceived := onBody_received (g := g) (h₁.readBody p.body) p.body
        rw [hbody] at hreceived
        refine ⟨⟨ps', ?_, ha'⟩, _, hnext.sent, hnext.sound, hnext.queue, hnext.torn⟩
        show _ = h₃.past.received ++ ps'
        rw [hreceived]
        show _ = (h₁.past.received ++ [⟨h₁.mCurrentHead, p.body⟩]) ++ ps'
        rw [hhead, hps, List.append_assoc]
        rfl
    · rintro h₁ cache h₂ ⟨⟨ps, hps, ha⟩, qs, he⟩ ht
      have hsound : ∀ p ∈ ps, p.Sound := fun p hp =>
        hf.sound p (hps ▸ List.mem_append_right _ hp)
      -- it stops behind a body that closed the connection, or at a head that is none
      rcases turn_stop ht with ⟨hstate, hfit, hbody⟩ | ⟨-, rfl | ⟨head, rfl⟩⟩
      · obtain ⟨p, ps', rfl, hhead, htake, -⟩ := ha.body hsound hstate hfit
        rw [htake] at hbody
        obtain ⟨qs', he'⟩ := onBody_emits (g := g) (h := h₁)
          (by rw [hhead]; exact (hsound p (List.mem_cons_self ..)).signed) p.body
        have hreceived := onBody_received (g := g) (h₁.readBody p.body) p.body
        rw [hbody] at he' hreceived
        refine ⟨⟨ps', ?_⟩, _, he.trans he'⟩
        rw [hreceived]
        show (h₁.past.received ++ [⟨h₁.mCurrentHead, p.body⟩]) ++ ps' = _
        rw [hhead, hps, List.append_assoc]
        rfl
      · exact ⟨⟨ps, hps.symm⟩, qs, he⟩
      · exact ⟨⟨ps, hps.symm⟩, qs, he.sent, he.sound, he.queue, he.torn⟩
    · exact ⟨hf.reads, [], .of_same rfl rfl rfl⟩
  generalize Framing.drain (turn g) fuel h cache = r at hall ⊢
  cases r with
  | waiting h₁ cache₁ => exact ⟨⟨hf.sound, hall.1⟩, hall.2⟩
  | stopped h₁ => exact ⟨⟨hf.sound, hall.1⟩, hall.2⟩

/-- A piece that is read takes its bytes off the way. -/
theorem Flow.handleRecv {sender : AsyncProtocolHandler α κ} {piece out cache : Blob}
    (hf : Flow sender (piece ++ out) (.waiting h cache)) :
    Flow sender out (AsyncProtocolHandler.handleRecv g (.waiting h cache) piece) ∧
      ∃ qs, Emits h (AsyncProtocolHandler.handleRecv g (.waiting h cache) piece).state qs := by
  -- a connection that stops at once has read nothing
  have hstopped : Flow sender out (.stopped h) ∧ ∃ qs, Emits h h qs :=
    ⟨⟨hf.sound, hf.received⟩, [], .of_same rfl rfl rfl⟩
  have hcache : Flow sender out (.waiting h (cache ++ piece)) := by
    obtain ⟨ps, hps, ha⟩ := hf.reads
    rw [← List.append_assoc] at ha
    exact ⟨hf.sound, ps, hps, ha⟩
  unfold AsyncProtocolHandler.handleRecv
  simp only
  split
  · exact hstopped
  · split
    · exact hstopped
    · exact hcache.drain (cost h (cache ++ piece) + 1)

/-! ## What only grows -/

/-- A torn packet stays torn, and what was issued stays issued. -/
structure Grows (h h' : AsyncProtocolHandler α κ) : Prop where
  torn : h.past.torn = true → h'.past.torn = true
  issued : h.past.issued <+: h'.past.issued

theorem Grows.refl (h : AsyncProtocolHandler α κ) : Grows h h := ⟨id, List.prefix_rfl⟩

theorem Grows.trans {h₁ h₂ h₃ : AsyncProtocolHandler α κ} (h₁₂ : Grows h₁ h₂) (h₂₃ : Grows h₂ h₃) :
    Grows h₁ h₃ :=
  ⟨fun ht => h₂₃.torn (h₁₂.torn ht), h₁₂.issued.trans h₂₃.issued⟩

theorem Quiet.grows (hq : Quiet h h') : Grows h h' :=
  ⟨hq.torn.trans, hq.issued ▸ List.prefix_rfl⟩

theorem Leads.grows (hl : Leads g h h') : Grows h h' :=
  hl.keeps (I := Grows h)
    (fun hgrows hs => hgrows.trans ⟨hs.emits.torn, hs.issued ▸ List.prefix_append ..⟩)
    (fun hgrows => hgrows.trans (close_quiet _).grows) (.refl h)

theorem Grows.calls {h₁ : AsyncProtocolHandler α κ} (hgrows : Grows h h₁) (cs : List (Call κ)) :
    Grows h (h₁.calls g cs) :=
  hgrows.trans (calls_leads h₁ cs).grows

/-- So does the handler of a body, -/
theorem onBody_grows (h : AsyncProtocolHandler α κ) (body : Blob) :
    Grows h ((h.readBody body).onBody g body).2 := by
  unfold onBody
  split
  · unfold onResponse
    split
    · split
      · refine ⟨(Grows.calls ?_ _).torn, (Grows.calls ?_ _).issued⟩ <;> exact ⟨id, List.prefix_rfl⟩
      · exact ⟨id, List.prefix_rfl⟩
    · split <;> exact ⟨id, List.prefix_rfl⟩
  · split
    · unfold onRequest sendResponse
      simp only
      split <;> refine ⟨(Grows.calls ?_ _).torn, (Grows.calls ?_ _).issued⟩ <;>
        exact ⟨id, List.prefix_rfl⟩
    · refine Grows.calls ?_ _
      exact ⟨id, List.prefix_rfl⟩

theorem turn_grows {cache rest : Blob} (ht : turn g h cache = .take h' rest) : Grows h h' := by
  rcases turn_take ht with ⟨-, -, -, h₁, hbody, rfl⟩ | ⟨-, -, -, -, -, rfl⟩
  · have hgrows := onBody_grows (g := g) h (cache.take h.mCurrentHead.mCb.toNat)
    rw [hbody] at hgrows
    exact ⟨hgrows.torn, hgrows.issued⟩
  · exact ⟨id, List.prefix_rfl⟩

/-- a turn that gives up, -/
theorem turn_stop_grows {cache : Blob} (ht : turn g h cache = .stop h') : Grows h h' := by
  rcases turn_stop ht with ⟨-, -, hbody⟩ | ⟨-, rfl | ⟨head, rfl⟩⟩
  · have hgrows := onBody_grows (g := g) h (cache.take h.mCurrentHead.mCb.toNat)
    rw [hbody] at hgrows
    exact hgrows
  · exact .refl h'
  · exact ⟨id, List.prefix_rfl⟩

/-- and so all that is read of a piece. -/
theorem handleRecv_grows (h : AsyncProtocolHandler α κ) (cache piece : Blob) :
    Grows h (AsyncProtocolHandler.handleRecv g (.waiting h cache) piece).state := by
  unfold AsyncProtocolHandler.handleRecv
  simp only
  split
  · exact .refl h
  · split
    · exact .refl h
    · have hall : Holds (fun h₁ _ => Grows h h₁) (Grows h)
          (feed (turn g) cost (.waiting h cache) piece) :=
        drain_keeps (fun _ _ _ _ hgrows ht => hgrows.trans (turn_grows ht))
          (fun _ _ _ hgrows ht => hgrows.trans (turn_stop_grows ht)) (.refl h)
      generalize feed (turn g) cost (.waiting h cache) piece = r at hall ⊢
      cases r <;> exact hall

/-! ## No response strays -/

theorem onBody_responsesReceived (h : AsyncProtocolHandler α κ) (body : Blob) :
    (h.onBody g body).2.past.responsesReceived = h.past.responsesReceived := by
  unfold Past.responsesReceived
  rw [onBody_received]

/-- As long as there were at most `n` responses, and so many requests, none has strayed. -/
def Counted (n : Nat) (h : AsyncProtocolHandler α κ) : Prop :=
  n ≤ h.past.issued.length ∧ (h.past.responsesReceived.length ≤ n → h.past.strayed = false)

/-- No response in a body strays while there are calls for all of them. -/
theorem Counted.body {n : Nat} (hc : h.Counted n) (hk : h.Kept) (hg : h.Going [])
    (hstate : h.mState = .body) (body : Blob) :
    ((h.readBody body).onBody g body).2.Counted n := by
  refine ⟨Nat.le_trans hc.1 (onBody_grows h body).issued.length_le, fun hle => ?_⟩
  rw [onBody_responsesReceived] at hle
  have hread := responsesReceived_readBody h body
  refine hk.onBody_strayed hg hstate (hc.2 ?_) (Nat.le_trans hle hc.1)
  rw [hread, List.length_append] at hle
  omega

/-- The same for all bodies in a piece. -/
theorem handleRecv_counted {n : Nat} (hh : h.Holding True []) (hc : h.Counted n)
    (cache piece : Blob) :
    (AsyncProtocolHandler.handleRecv g (.waiting h cache) piece).state.Counted n := by
  unfold AsyncProtocolHandler.handleRecv
  simp only
  split
  · exact hc
  · split
    · exact hc
    · have hall : Holds (fun h _ => h.Kept ∧ h.Going [] ∧ h.Counted n) (fun h => h.Counted n)
          (feed (turn g) cost (.waiting h cache) piece) := by
        apply drain_keeps
        · rintro h₁ cache₁ h₂ rest ⟨hk, hg, hc⟩ hturn
          obtain ⟨hk₂, hg₂⟩ := hk.turn hg hturn
          refine ⟨hk₂, hg₂, ?_⟩
          rcases turn_take hturn with ⟨hstate, -, -, h₃, hbody, rfl⟩ | ⟨-, -, -, -, -, rfl⟩
          · have hcounted := hc.body (g := g) hk hg hstate
              (cache₁.take h₁.mCurrentHead.mCb.toNat)
            rw [hbody] at hcounted
            exact hcounted
          · exact hc
        · rintro h₁ cache₁ h₂ ⟨hk, hg, hc⟩ hturn
          rcases turn_stop hturn with ⟨hstate, -, hbody⟩ | ⟨-, rfl | ⟨head, rfl⟩⟩
          · have hcounted := hc.body (g := g) hk hg hstate
              (cache₁.take h₁.mCurrentHead.mCb.toNat)
            rw [hbody] at hcounted
            exact hcounted
          · exact hc
          · exact hc
        · exact ⟨hh.1, hh.2 trivial, hc⟩
      generalize feed (turn g) cost (.waiting h cache) piece = r at hall ⊢
      cases r with
      | waiting h₁ cache₁ => exact hall.2.2
      | stopped h₁ => exact hall

end AsyncProtocolHandler

/-! ## One end -/

namespace End

variable {α κ : Type} {g : Config α κ} {e e' : End α κ}

/-- What is in the send queue and not yet on the wire. -/
def unwritten (e : End α κ) : Blob := e.handler.mPserviceEndpoint.mSendQue.flatten.drop e.written

/-- No more is written than the first entry holds. -/
def Fits (e : End α κ) : Prop :=
  e.written ≤ (e.handler.mPserviceEndpoint.mSendQue.head?.getD []).length

/-- What an event puts on the wire. -/
def put (e : End α κ) : EndEvent κ → Blob
  | .write n => e.unwritten.take n
  | _ => []

/-- What it takes off it. -/
def taken : EndEvent κ → Blob
  | .read piece => piece
  | _ => []

/-- No more has been written than there is in the queue. -/
theorem Fits.le (hf : e.Fits) : e.written ≤ e.handler.mPserviceEndpoint.mSendQue.flatten.length := by
  unfold Fits at hf
  cases hq : e.handler.mPserviceEndpoint.mSendQue with
  | nil =>
    rw [hq] at hf
    exact hf
  | cons entry que =>
    rw [hq] at hf
    rw [List.flatten_cons, List.length_append]
    exact Nat.le_add_right_of_le hf

/-- The packets `qs` are sent by an end, and `bytes` leave it. -/
structure Puts (e e' : End α κ) (bytes : Blob) (qs : List Packet) : Prop where
  sent : e'.handler.past.sent = e.handler.past.sent ++ qs
  sound : ∀ q ∈ qs, q.Sound
  torn : e.handler.past.torn = true → e'.handler.past.torn = true
  bytes : e'.handler.past.torn = false →
    bytes ++ e'.unwritten = e.unwritten ++ packetsToBytes qs
  fits : e'.Fits

/-- What the handler sends joins the queue. -/
theorem Fits.puts (hf : e.Fits) {qs : List Packet}
    {r : Reader (AsyncProtocolHandler α κ) UInt8} (he : Emits e.handler r.state qs) :
    Puts e ⟨r, e.written⟩ [] qs := by
  obtain ⟨more, hqueue, hbytes⟩ := he.queue
  refine ⟨he.sent, he.sound, he.torn, fun hwhole => ?_, ?_⟩
  · show r.state.mPserviceEndpoint.mSendQue.flatten.drop e.written =
      e.handler.mPserviceEndpoint.mSendQue.flatten.drop e.written ++ _
    rw [hqueue, List.flatten_append, List.drop_append_of_le_length hf.le, hbytes hwhole]
  · show e.written ≤ (r.state.mPserviceEndpoint.mSendQue.head?.getD []).length
    rw [hqueue]
    unfold Fits at hf
    cases hq : e.handler.mPserviceEndpoint.mSendQue with
    | nil =>
      rw [hq] at hf
      exact Nat.le_trans hf (Nat.zero_le _)
    | cons entry que =>
      rw [hq] at hf
      exact hf

/-- What an event other than a read does for the other end, and for what is being read. -/
theorem step_puts (hf : e.Fits) {ev : EndEvent κ} (hstep : step g ev e = some e')
    (hread : ∀ piece, ev ≠ .read piece) :
    (∃ qs, Puts e e' (e.put ev) qs) ∧
      ∃ f, e'.reader = e.reader.map f ∧ (f e.handler).past.received = e.handler.past.received ∧
        (f e.handler).mState = e.handler.mState ∧
        (f e.handler).mCurrentHead = e.handler.mCurrentHead := by
  -- a step that sends nothing has nothing to put
  have hquiet : ∀ f : AsyncProtocolHandler α κ → AsyncProtocolHandler α κ,
      Quiet e.handler (f e.handler) → (∃ qs, Puts e ⟨e.reader.map f, e.written⟩ [] qs) ∧
        ∃ f', e.reader.map f = e.reader.map f' ∧
          (f' e.handler).past.received = e.handler.past.received ∧
          (f' e.handler).mState = e.handler.mState ∧
          (f' e.handler).mCurrentHead = e.handler.mCurrentHead := by
    intro f hq
    refine ⟨⟨[], hf.puts ?_⟩, f, rfl, hq.received, hq.mState, hq.mCurrentHead⟩
    rw [Reader.state_map]
    exact hq.emits
  cases ev with
  | call c =>
    cases hstep
    obtain ⟨qs, he⟩ := (call_leads (g := g) (.refl : Leads g e.handler e.handler) c).emits
    have hsame := call_sameReading (g := g) e.handler c
    refine ⟨⟨qs, hf.puts ?_⟩, _, rfl, hsame.received, hsame.mState, hsame.mCurrentHead⟩
    rw [Reader.state_map]
    exact he
  | read piece => exact absurd rfl (hread piece)
  | write n =>
    simp only [step] at hstep
    split at hstep
    · cases hstep
    · next entry que hque =>
      split at hstep
      · cases hstep
      · next hfits =>
        -- the packet that was written has left the queue, and the count starts again
        cases hstep
        refine ⟨⟨[], (List.append_nil _).symm, fun q hq => absurd hq List.not_mem_nil, id,
          fun _ => ?_, ?_⟩, id, ?_, rfl, rfl, rfl⟩
        · show (e.handler.mPserviceEndpoint.mSendQue.flatten.drop e.written).take n ++
            e.handler.mPserviceEndpoint.mSendQue.flatten.drop (e.written + n) = e.unwritten ++ []
          rw [← List.drop_drop, List.take_append_drop, List.append_nil]
          rfl
        · show e.written + n ≤ (e.handler.mPserviceEndpoint.mSendQue.head?.getD []).length
          rw [hque]
          show e.written + n ≤ entry.length
          omega
        · cases e.reader <;> rfl
  | handleWrite =>
    simp only [step] at hstep
    split at hstep
    · cases hstep
    · next entry que hque =>
      split at hstep
      · cases hstep
      · next hwritten =>
        cases hstep
        have hq := handleWrite_quiet (g := g) e.handler
        have hstate : (e.reader.map (·.handleWrite g)).state = e.handler.handleWrite g :=
          Reader.state_map ..
        have hqueue : (e.handler.handleWrite g).mPserviceEndpoint.mSendQue = que := by
          rw [hq.queue, hque]
          rfl
        refine ⟨⟨[], ?_, fun q hq => absurd hq List.not_mem_nil, fun ht => ?_, fun _ => ?_, ?_⟩, _,
          rfl, hq.received, hq.mState, hq.mCurrentHead⟩
        · show (e.reader.map _).state.past.sent = _
          rw [hstate, hq.sent, List.append_nil]
        · show (e.reader.map _).state.past.torn = true
          rw [hstate, hq.torn]
          exact ht
        · show [] ++ (e.reader.map _).state.mPserviceEndpoint.mSendQue.flatten.drop 0 =
            e.handler.mPserviceEndpoint.mSendQue.flatten.drop e.written ++ []
          rw [hstate, hqueue, hque, Decidable.not_not.1 hwritten, List.flatten_cons, List.drop_left,
            List.append_nil]
          rfl
        · exact Nat.zero_le _
  | timerFires i =>
    obtain ⟨h', hfires, rfl⟩ := Option.map_eq_some_iff.1 hstep
    exact hquiet (fun _ => h') (timerFires_quiet hfires)
  | timeout i =>
    obtain ⟨h', htimeout, rfl⟩ := Option.map_eq_some_iff.1 hstep
    exact hquiet (fun _ => h') (timeout_quiet htimeout)
  | socketError =>
    cases hstep
    exact hquiet _ (shutdown_quiet _)

/-- What a read does for both ends. -/
theorem step_read (hf : e.Fits) {piece out : Blob} {sender : AsyncProtocolHandler α κ}
    (hflow : Flow sender (piece ++ out) e.reader) (hstep : step g (.read piece) e = some e') :
    Flow sender out e'.reader ∧ ∃ qs, Puts e e' [] qs := by
  obtain ⟨r', hread, rfl⟩ := Option.map_eq_some_iff.1 hstep
  have hboth : Flow sender out r' ∧ ∃ qs, Emits e.handler r'.state qs := by
    cases hr : e.reader with
    | stopped h =>
      rw [hr] at hread
      cases hread
    | waiting h cache =>
      rw [hr] at hread hflow
      rw [show e.handler = h from congrArg Reader.state hr]
      obtain ⟨hrecv, qs, he⟩ := hflow.handleRecv (g := g)
      unfold handleRead at hread
      simp only at hread
      split at hread
      · cases hread
      · generalize AsyncProtocolHandler.handleRecv g (.waiting h cache) piece = r at hrecv he hread
        cases r with
        | waiting h' cache' =>
          cases hread
          exact ⟨hrecv, qs, he⟩
        | stopped h' =>
          cases hread
          have hq := closeConnection_quiet (g := g) h'
          exact ⟨hrecv.quiet hq.received hq.mState hq.mCurrentHead, _, he.trans hq.emits⟩
  obtain ⟨hflow', qs, he⟩ := hboth
  exact ⟨hflow', qs, hf.puts he⟩

/-- A read does what its `handle_recv` does, and may close the connection then. -/
theorem handleRead_cases {r r' : Reader (AsyncProtocolHandler α κ) UInt8} {piece : Blob}
    (hread : handleRead g r piece = some r') : ∃ h cache, r = .waiting h cache ∧
      Quiet (handleRecv g (.waiting h cache) piece).state r'.state := by
  cases r with
  | stopped h => cases hread
  | waiting h cache =>
    refine ⟨h, cache, rfl, ?_⟩
    unfold handleRead at hread
    simp only at hread
    split at hread
    · cases hread
    · generalize handleRecv g (.waiting h cache) piece = out at hread ⊢
      cases out with
      | waiting h' cache' =>
        cases hread
        exact .refl h'
      | stopped h' =>
        cases hread
        exact closeConnection_quiet h'

/-- What an event does besides reading. -/
theorem step_grows {ev : EndEvent κ} (hstep : step g ev e = some e') :
    Grows e.handler e'.handler ∧ ((∀ piece, ev ≠ .read piece) →
      e'.handler.past.strayed = e.handler.past.strayed) := by
  -- whatever is done to the handler is done behind the reader's cache
  have hmap : ∀ (f : AsyncProtocolHandler α κ → AsyncProtocolHandler α κ) (written : Nat),
      Grows e.handler (f e.handler) → (f e.handler).past.strayed = e.handler.past.strayed →
      Grows e.handler (End.handler ⟨e.reader.map f, written⟩) ∧
        ((∀ piece, ev ≠ .read piece) →
          (End.handler ⟨e.reader.map f, written⟩).past.strayed = e.handler.past.strayed) := by
    intro f written hgrows hstray
    unfold handler
    rw [Reader.state_map]
    exact ⟨hgrows, fun _ => hstray⟩
  cases ev with
  | call c =>
    cases hstep
    exact hmap _ _ (call_leads .refl c).grows (call_sameReading (g := g) e.handler c).strayed
  | read piece =>
    obtain ⟨r', hread, rfl⟩ := Option.map_eq_some_iff.1 hstep
    obtain ⟨h, cache, hr, hq⟩ := handleRead_cases hread
    refine ⟨?_, fun hno => absurd rfl (hno piece)⟩
    have hgrows := (handleRecv_grows (g := g) h cache piece).trans hq.grows
    rw [show h = e.handler from (congrArg Reader.state hr).symm] at hgrows
    exact hgrows
  | write n =>
    simp only [step] at hstep
    split at hstep
    · cases hstep
    · split at hstep
      · cases hstep
      · cases hstep
        exact ⟨.refl _, fun _ => rfl⟩
  | handleWrite =>
    simp only [step] at hstep
    split at hstep
    · cases hstep
    · split at hstep
      · cases hstep
      · cases hstep
        have hq := handleWrite_quiet (g := g) e.handler
        have hgrows := hq.grows
        exact hmap _ _ ⟨hgrows.torn, hgrows.issued⟩ hq.strayed
  | timerFires i =>
    obtain ⟨h', hfires, rfl⟩ := Option.map_eq_some_iff.1 hstep
    exact hmap (fun _ => h') _ (timerFires_quiet hfires).grows (timerFires_quiet hfires).strayed
  | timeout i =>
    obtain ⟨h', htimeout, rfl⟩ := Option.map_eq_some_iff.1 hstep
    exact hmap (fun _ => h') _ (timeout_quiet htimeout).grows (timeout_quiet htimeout).strayed
  | socketError =>
    cases hstep
    exact hmap _ _ (shutdown_quiet (g := g) e.handler).grows
      (shutdown_quiet (g := g) e.handler).strayed

/-- No response strays when there were no more of them than requests before the event. -/
theorem step_strayed {ev : EndEvent κ} (hheld : e.Held) (hstep : step g ev e = some e')
    (hstray : e.handler.past.strayed = false)
    (hasked : e'.handler.past.responsesReceived.length ≤ e.handler.past.issued.length) :
    e'.handler.past.strayed = false := by
  by_cases hread : ∃ piece, ev = .read piece
  · obtain ⟨piece, rfl⟩ := hread
    obtain ⟨r', hr', rfl⟩ := Option.map_eq_some_iff.1 hstep
    obtain ⟨h, cache, hr, hq⟩ := handleRead_cases hr'
    have hh : e.handler = h := congrArg Reader.state hr
    have hholding : h.Holding True [] := by
      have hheld' : e.handler.Holding e.reader.Reading [] := hheld
      rw [hh, hr] at hheld'
      exact hheld'
    rw [hh] at hstray hasked
    have hcounted := handleRecv_counted (g := g) (n := h.past.issued.length) hholding
      ⟨Nat.le_refl _, fun _ => hstray⟩ cache piece
    refine hq.strayed.trans (hcounted.2 ?_)
    have hsame : (r'.state).past.responsesReceived =
        (handleRecv g (.waiting h cache) piece).state.past.responsesReceived := by
      unfold Past.responsesReceived
      rw [hq.received]
    rw [← hsame]
    exact hasked
  · exact ((step_grows hstep).2 fun piece he => hread ⟨piece, he⟩).trans hstray

end End

/-! ## Two ends -/

/-- The two ends of a link. -/
inductive Side where
  | one
  | two
  deriving DecidableEq

/-- The end across. -/
def Side.other : Side → Side
  | .one => .two
  | .two => .one

theorem Side.other_other (side : Side) : side.other.other = side := by cases side <;> rfl

theorem Side.ne_other (side : Side) : side ≠ side.other := by cases side <;> exact Side.noConfusion

/-- Both ends, and the bytes on their way to each. -/
structure Link (α κ : Type) where
  ends : Side → End α κ
  toward : Side → Blob

namespace Link

variable {α κ : Type} (g : Side → Config α κ)

/-- A fresh connection. -/
def start (context : Side → α) : Link α κ where
  ends side := .start (context side)
  toward _ := []

/-- What an end keeps to itself as `Past`. -/
def past (l : Link α κ) (side : Side) : Past κ := (l.ends side).handler.past

/-- One event at one end. What it reads is next on the wire; what it writes joins the wire. -/
def step (ev : Side × EndEvent κ) (l : Link α κ) : Option (Link α κ) :=
  if End.taken ev.2 <+: l.toward ev.1 then
    (End.step (g ev.1) ev.2 (l.ends ev.1)).map fun e =>
      { ends := fun side => if side = ev.1 then e else l.ends side
        toward := fun side =>
          if side = ev.1 then (l.toward side).drop (End.taken ev.2).length
          else l.toward side ++ (l.ends ev.1).put ev.2 }
  else none

variable {g} {l l' : Link α κ}

/-- Nothing is lost on the way to `side`. -/
def Flows (l : Link α κ) (side : Side) : Prop :=
  Flow (l.ends side.other).handler (l.toward side ++ (l.ends side.other).unwritten)
    (l.ends side).reader

/-- What the link keeps. -/
structure Sound (l : Link α κ) : Prop where
  held : ∀ side, (l.ends side).Held
  flows : (∀ side, (l.past side).torn = false) → ∀ side, (l.ends side).Fits ∧ l.Flows side
  strayed : (∀ side, (l.past side).torn = false) → ∀ side, (l.past side).strayed = false

theorem start_sound (context : Side → α) : (start context : Link α κ).Sound where
  held side := End.start_held (context side)
  flows _ _ := ⟨Nat.le_refl 0, fun _ hp => absurd hp List.not_mem_nil, [], rfl, rfl⟩
  strayed _ _ := rfl

/-- What an event does for both ends, whether or not it reads. -/
theorem step_ends {side : Side} {ev : EndEvent κ} {e' : End α κ} {out : Blob}
    (hfits : (l.ends side).Fits) (hflow : l.Flows side)
    (hout : End.taken ev ++ out = l.toward side)
    (hend : End.step (g side) ev (l.ends side) = some e') :
    (∃ qs, End.Puts (l.ends side) e' ((l.ends side).put ev) qs) ∧
      Flow (l.ends side.other).handler (out ++ (l.ends side.other).unwritten) e'.reader := by
  unfold Flows at hflow
  rw [← hout, List.append_assoc] at hflow
  by_cases hread : ∃ piece, ev = .read piece
  · obtain ⟨piece, rfl⟩ := hread
    obtain ⟨hflow', qs, hputs⟩ := End.step_read hfits hflow hend
    exact ⟨⟨qs, hputs⟩, hflow'⟩
  · have hnone : End.taken ev = [] := by
      cases ev with
      | read piece => exact absurd ⟨piece, rfl⟩ hread
      | _ => rfl
    obtain ⟨hputs, f, hreader, hreceived, hstate, hhead⟩ :=
      End.step_puts hfits hend (fun piece he => hread ⟨piece, he⟩)
    rw [hnone] at hflow
    rw [hreader]
    exact ⟨hputs, hflow.quiet hreceived hstate hhead⟩

theorem prefix_said {ps qs : List Packet} (h : ps <+: qs) (kind : Packet → Bool) :
    (ps.filter kind).map Packet.said <+: (qs.filter kind).map Packet.said :=
  (h.filter kind).map Packet.said

/-- An end has been sent no more responses than it has made requests. -/
theorem Sound.responses_le (hs : l.Sound) (hwhole : ∀ side, (l.past side).torn = false) {side : Side}
    {out : Blob} {r : Reader (AsyncProtocolHandler α κ) UInt8}
    (hflow : Flow (l.ends side.other).handler out r) :
    r.state.past.responsesReceived.length ≤ (l.past side).issued.length := by
  have hthere := (hs.flows hwhole side.other).2.received
  rw [Side.other_other] at hthere
  obtain ⟨hcaller, -⟩ := hs.held side
  obtain ⟨hanswerer, -⟩ := hs.held side.other
  calc r.state.past.responsesReceived.length
      ≤ (l.past side.other).responsesSent.length :=
        (prefix_said hflow.received Packet.isResponse).length_le
    _ ≤ (l.past side.other).served.length := by
        have hreplied := hanswerer.replied.length_le
        rw [List.length_map] at hreplied
        exact hreplied
    _ = (l.past side.other).requestsReceived.length := by
        have hserved := congrArg List.length hanswerer.served
        rw [List.length_map] at hserved
        exact hserved
    _ ≤ (l.past side).requestsSent.length := (prefix_said hthere Packet.isRequest).length_le
    _ = (l.past side).issued.length := by
        have hasked := congrArg List.length hcaller.asked
        rw [List.length_map] at hasked
        exact hasked.symm

/-- What is whole after an event was whole before it. -/
theorem whole_before {side₀ : Side} {ev : EndEvent κ} {e' : End α κ} {toward : Side → Blob}
    (hend : End.step (g side₀) ev (l.ends side₀) = some e')
    (hwhole : ∀ side, (past (⟨fun side => if side = side₀ then e' else l.ends side, toward⟩ :
      Link α κ) side).torn = false) (side : Side) : (l.past side).torn = false := by
  have hnow := hwhole side
  by_cases hside : side = side₀
  · subst hside
    simp only [past, if_true] at hnow
    exact whole_of_whole (End.step_grows hend).1.torn hnow
  · simp only [past, if_neg hside] at hnow
    exact hnow

/-- **Every event keeps the link sound.** -/
theorem step_sound {ev : Side × EndEvent κ} (hs : l.Sound) (hstep : step g ev l = some l') :
    l'.Sound := by
  obtain ⟨side₀, ev⟩ := ev
  unfold step at hstep
  split at hstep
  · next htaken =>
    obtain ⟨out, hout⟩ := htaken
    obtain ⟨e', hend, rfl⟩ := Option.map_eq_some_iff.1 hstep
    refine ⟨fun side => ?_, fun hwhole side => ?_, fun hwhole side => ?_⟩
    · by_cases hside : side = side₀
      · simp only [if_pos hside]
        exact End.step_held (hs.held side₀) hend
      · simp only [if_neg hside]
        exact hs.held side
    · have hwas := whole_before hend hwhole
      obtain ⟨⟨qs, hputs⟩, hreads⟩ :=
        step_ends (hs.flows hwas side₀).1 (hs.flows hwas side₀).2 hout hend
      have hwhole₀ : e'.handler.past.torn = false := by
        have hnow := hwhole side₀
        simp only [past, if_true] at hnow
        exact hnow
      by_cases hside : side = side₀
      · subst hside
        refine ⟨by simp only [if_true]; exact hputs.fits, ?_⟩
        unfold Flows
        simp only [if_true, if_neg (Side.ne_other side).symm]
        rw [← hout, List.drop_left]
        exact hreads
      · have hother : side.other = side₀ := by
          cases side <;> cases side₀ <;> first | rfl | exact absurd rfl hside
        obtain ⟨hfits, hflow⟩ := hs.flows hwas side
        refine ⟨by simp only [if_neg hside]; exact hfits, ?_⟩
        unfold Flows at hflow ⊢
        rw [hother] at hflow ⊢
        simp only [if_true, if_neg hside]
        rw [List.append_assoc, hputs.bytes hwhole₀, ← List.append_assoc]
        exact hflow.sends hputs.sent hputs.sound
    · have hwas := whole_before hend hwhole
      by_cases hside : side = side₀
      · subst hside
        have hreads := (step_ends (hs.flows hwas side).1 (hs.flows hwas side).2 hout hend).2
        have hle := hs.responses_le hwas hreads
        simp only [past, if_true]
        exact End.step_strayed (hs.held side) hend (hs.strayed hwas side) hle
      · simp only [past, if_neg hside]
        exact hs.strayed hwas side
  · cases hstep

/-- **Over one connection, whatever the two ends do and however the network cuts what they
write: the handler at one end has been given the requests of the other in the order in which
they were made, and a callback that was given a response was given what the handler returned
for the request it came with.** -/
theorem responses_match {context : Side → α} {evs : List (Side × EndEvent κ)}
    (hrun : Runs.run (step g) evs (start context) = some l)
    (hwhole : ∀ side, (l.past side).torn = false) (side : Side) :
    (l.past side.other).received <+: (l.past side).sent ∧
    (l.past side.other).served.map Served.asked <+: (l.past side).issued.map Issued.said ∧
    (l.past side).answered <+: List.zipWith answerOf (l.past side).issued
      ((l.past side.other).served.map Served.replied) := by
  have hs := Runs.run_invariant (fun _ _ _ hs hstep => step_sound hs hstep)
    (start_sound context) hrun
  have hthere : (l.past side.other).received <+: (l.past side).sent := by
    have hflow := (hs.flows hwhole side.other).2.received
    rw [Side.other_other] at hflow
    exact hflow
  have hback : (l.past side).received <+: (l.past side.other).sent :=
    (hs.flows hwhole side).2.received
  obtain ⟨hcaller, -⟩ := hs.held side
  obtain ⟨hanswerer, -⟩ := hs.held side.other
  refine ⟨hthere, ?_, ?_⟩
  · rw [show (l.past side.other).served.map Served.asked = (l.past side.other).requestsReceived
      from hanswerer.served, show (l.past side).issued.map Issued.said =
      (l.past side).requestsSent from hcaller.asked]
    exact prefix_said hthere _
  · have hresponses : (l.past side).responsesReceived <+:
        (l.past side.other).served.map Served.replied :=
      (prefix_said hback _).trans hanswerer.replied
    exact (hcaller.answered (hs.strayed hwhole side)).trans
      (prefix_zipWith _ List.prefix_rfl hresponses)

end Link

namespace Echo

/-- A request goes over in two pieces, and its answer back in one. -/
def exchange : List (Side × EndEvent Nat) :=
  [(.one, .call (.asyncInvoke 1001 longBody 7)),
    (.one, .write 33), (.one, .handleWrite), (.one, .write 3), (.one, .handleWrite),
    (.two, .read ((packetsToBytes [requestPacket 1001 longBody true]).take 20)),
    (.two, .read ((packetsToBytes [requestPacket 1001 longBody true]).drop 20)),
    (.two, .write 36), (.two, .handleWrite), (.one, .read answer.toBytes)]

theorem exchange_runs :
    (Runs.run (Link.step fun _ => config) exchange (.start fun _ => [])).isSome = true := by
  decide +kernel

end Echo

/-- One end asks the other, and gets the echo of what it said. -/
theorem responses_match_echo : ∃ l : Link (List Blob) Nat,
    Runs.run (Link.step fun _ => Echo.config) Echo.exchange (.start fun _ => []) = some l ∧
    (l.past .one).answered = [(7, 1001, [3, 2, 1])] ∧
    (l.past .one).answered <+: List.zipWith answerOf (l.past .one).issued
      ((l.past .two).served.map Served.replied) :=
  ⟨_, (Option.some_get Echo.exchange_runs).symm, by decide +kernel,
    (Link.responses_match (Option.some_get Echo.exchange_runs).symm
      (fun side => by cases side <;> decide +kernel) .one).2.2⟩

end DarknetSpace.Levin
