import DarknetSpace.Lib.Runs
import DarknetSpace.Net.Pieces
import Mathlib.Algebra.Order.Group.Multiset
import Mathlib.Tactic.Abel

/-!
# What calls do to a connection

The ends of a connection send requests, notifications and responses over one
stream of bytes each way. A response carries no name of the request it belongs
to: it goes to the callback that has waited longest.

`Kept` is what the handler of a connection keeps at any time, whoever is at the
other end: what was issued is what was sent as requests, the list of handlers is
the part of it that has no answer yet, and every callback is accounted for once.
`Going` holds besides as long as the connection is read. Responses and callbacks
are paired by counting, so both speak of the case that the other end sends more
responses than it was asked for: then one strays, and the count is off from there.

What a call does is said once, by `Sends` (packets go into the queue, callbacks
are left behind or given an error) and `close`; `Leads` is any sequence of these,
and `Leads.keeps` the rule for what calls keep.
-/

namespace DarknetSpace.Levin

open Framing AsyncProtocolHandler

namespace Packet

/-- A packet that answers a request. -/
def isResponse (p : Packet) : Bool :=
  AsyncProtocolHandler.isResponse p.head.mProtocolVersion p.head

/-- It is no response and something is to be sent back. -/
def isRequest (p : Packet) : Bool := !p.isResponse && p.head.mHaveToReturnData

/-- What a packet says: its command and its body. -/
def said (p : Packet) : Int32 × Blob := (p.head.mCommand.toInt32, p.body)

end Packet

/-- A call, as the other side sees it. -/
def Issued.said {κ : Type} (i : Issued κ) : Int32 × Blob := (i.command, i.inBuff)

/-- A request that was served. -/
def Served.asked (s : Served) : Int32 × Blob := (s.command, s.inBuff)

/-- The response to it. -/
def Served.replied (s : Served) : Int32 × Blob := (s.command, s.buffOut)

namespace Past

variable {κ : Type} (past : Past κ)

/-- The requests among the packets on the queue. -/
def requestsSent : List (Int32 × Blob) := (past.sent.filter Packet.isRequest).map Packet.said

/-- The responses among them. -/
def responsesSent : List (Int32 × Blob) := (past.sent.filter Packet.isResponse).map Packet.said

/-- The requests among the packets that came in. -/
def requestsReceived : List (Int32 × Blob) :=
  (past.received.filter Packet.isRequest).map Packet.said

/-- The responses among them. -/
def responsesReceived : List (Int32 × Blob) :=
  (past.received.filter Packet.isResponse).map Packet.said

end Past

namespace AsyncProtocolHandler

variable {α κ : Type} {g : Config α κ} {h h' : AsyncProtocolHandler α κ}

/-! ## What goes into the queue -/

theorem packetsToBytes_append (ps qs : List Packet) :
    packetsToBytes (ps ++ qs) = packetsToBytes ps ++ packetsToBytes qs := List.flatMap_append

/-- From `h` to `h'` the packets `qs` are sent. -/
structure Emits (h h' : AsyncProtocolHandler α κ) (qs : List Packet) : Prop where
  sent : h'.past.sent = h.past.sent ++ qs
  sound : ∀ q ∈ qs, q.Sound
  queue : ∃ more, h'.mPserviceEndpoint.mSendQue = h.mPserviceEndpoint.mSendQue ++ more ∧
    (h'.past.torn = false → more.flatten = packetsToBytes qs)
  torn : h.past.torn = true → h'.past.torn = true

/-- Nothing is sent where packets, queue and tears stay. -/
theorem Emits.of_same (hsent : h'.past.sent = h.past.sent)
    (hqueue : h'.mPserviceEndpoint.mSendQue = h.mPserviceEndpoint.mSendQue)
    (htorn : h'.past.torn = h.past.torn) : Emits h h' [] where
  sent := by rw [hsent, List.append_nil]
  sound q hq := absurd hq List.not_mem_nil
  queue := ⟨[], by rw [hqueue, List.append_nil], fun _ => rfl⟩
  torn ht := htorn.trans ht

theorem whole_of_whole (htorn : h.past.torn = true → h'.past.torn = true)
    (hwhole : h'.past.torn = false) : h.past.torn = false := by
  rw [← Bool.not_eq_true]
  intro ht
  rw [htorn ht] at hwhole
  cases hwhole

/-- What is sent first comes first. -/
theorem Emits.trans {h₁ h₂ h₃ : AsyncProtocolHandler α κ} {qs qs' : List Packet}
    (h₁₂ : Emits h₁ h₂ qs) (h₂₃ : Emits h₂ h₃ qs') : Emits h₁ h₃ (qs ++ qs') where
  sent := by rw [h₂₃.sent, h₁₂.sent, List.append_assoc]
  sound q hq := (List.mem_append.1 hq).elim (h₁₂.sound q) (h₂₃.sound q)
  queue := by
    obtain ⟨more, hmore, hbytes⟩ := h₁₂.queue
    obtain ⟨more', hmore', hbytes'⟩ := h₂₃.queue
    refine ⟨more ++ more', by rw [hmore', hmore, List.append_assoc], fun hwhole => ?_⟩
    rw [List.flatten_append, hbytes (whole_of_whole h₂₃.torn hwhole), hbytes' hwhole,
      packetsToBytes_append]
  torn ht := h₂₃.torn (h₁₂.torn ht)

/-! ## What a call does -/

/-- The handler of a request whose response is waited for. -/
def newHandler (i : Issued κ) : AnvokeHandler κ := ⟨i.cb, true, false, false⟩

/-- From `h` to `h'` the packets `qs` go into the queue, the requests of `new` leave their
callback behind, and the callbacks of `lost` are given an error. -/
structure Sends (h h' : AsyncProtocolHandler α κ) (qs : List Packet) (new : List (Issued κ))
    (lost : List (κ × Int32)) : Prop where
  same : h.SameReading h'
  released : h'.mProtocolReleased = h.mProtocolReleased
  emits : Emits h h' qs
  plain : ∀ q ∈ qs, q.isResponse = false
  issued : h'.past.issued = h.past.issued ++ new
  said : new.map Issued.said = (qs.filter Packet.isRequest).map Packet.said
  handlers : h'.mInvokeResponseHandlers = h.mInvokeResponseHandlers ++ new.map newHandler
  given : (h'.past.given : Multiset κ) =
    h.past.given + (lost.map Prod.fst : Multiset κ) + (new.map Issued.cb : Multiset κ)
  failed : h'.past.failed = h.past.failed ++ lost
  shut : h'.mPserviceEndpoint.mWasShutdown = h.mPserviceEndpoint.mWasShutdown
  unshut : new ≠ [] → h.mPserviceEndpoint.mWasShutdown = false

/-- `do_send` refuses, and at most asks for the connection to be closed, or appends. -/
theorem doSend_cases (c : Connection) (data : Blob) :
    (∃ c', c.doSend data = (false, c') ∧ c'.mSendQue = c.mSendQue ∧
      c'.mWasShutdown = c.mWasShutdown) ∨
    (c.mWasShutdown = false ∧
      c.doSend data = (true, { c with mSendQue := c.mSendQue ++ [data] })) := by
  unfold Connection.doSend
  by_cases hshut : c.mWasShutdown = true
  · rw [if_pos hshut]
    exact .inl ⟨c, rfl, rfl, rfl⟩
  · rw [if_neg hshut]
    by_cases hfull : abstractServerSendQueMaxCount ≤ c.mSendQue.length
    · rw [if_pos hfull]
      exact .inl ⟨_, rfl, rfl, rfl⟩
    · rw [if_neg hfull]
      exact .inr ⟨Bool.not_eq_true _ ▸ hshut, rfl⟩

theorem requestPacket_isResponse (command : Int32) (inBuff : Sendable) (wants : Bool) :
    (requestPacket command inBuff wants).isResponse = false := by
  show (levinProtocolVer1 == levinProtocolVer1 && levinPacketRequest &&& levinPacketResponse != 0) =
    false
  decide

/-- A packet of `invoke` is a request, one of `notify` is not. -/
theorem requestPacket_isRequest (command : Int32) (inBuff : Sendable) (wants : Bool) :
    (requestPacket command inBuff wants).isRequest = wants := by
  unfold Packet.isRequest
  rw [requestPacket_isResponse]
  rfl

/-- A packet that is sent on its own: queued whole, or not said to have been sent. -/
theorem sendPacket_cases (h : AsyncProtocolHandler α κ) (p : Packet) :
    (∃ c t more, h.sendPacket p = (false, { h with mPserviceEndpoint := c, past := { h.past with torn := t } }) ∧
      c.mSendQue = h.mPserviceEndpoint.mSendQue ++ more ∧
      c.mWasShutdown = h.mPserviceEndpoint.mWasShutdown ∧
      (h.past.torn = true → t = true) ∧ (t = false → more = [])) ∨
    (h.mPserviceEndpoint.mWasShutdown = false ∧
      h.sendPacket p = (true, { h with
        mPserviceEndpoint := { h.mPserviceEndpoint with
          mSendQue := h.mPserviceEndpoint.mSendQue ++ [p.head.toBytes, p.body] }
        past := h.past.send p })) := by
  unfold sendPacket
  rcases doSend_cases h.mPserviceEndpoint p.head.toBytes with
    ⟨c, hsend, hque, hshut⟩ | ⟨hopen, hsend⟩
  · rw [hsend]
    exact .inl ⟨c, h.past.torn, [], rfl, by rw [hque, List.append_nil], hshut, id, fun _ => rfl⟩
  · rw [hsend]
    simp only
    rcases doSend_cases { h.mPserviceEndpoint with
        mSendQue := h.mPserviceEndpoint.mSendQue ++ [p.head.toBytes] } p.body with
      ⟨c, hsend', hque, hshut⟩ | ⟨-, hsend'⟩
    · rw [hsend']
      exact .inl ⟨c, true, _, rfl, hque, hshut, fun _ => rfl, fun ht => Bool.noConfusion ht⟩
    · rw [hsend']
      refine .inr ⟨hopen, ?_⟩
      simp only [List.append_assoc, List.cons_append, List.nil_append]

/-- A notification sends at most its packet, and waits for nothing. -/
theorem notify_sends (h : AsyncProtocolHandler α κ) (command : Int32) (inBuff : Sendable) :
    ∃ qs, Sends h (h.notify command inBuff) qs [] [] := by
  unfold notify
  rcases sendPacket_cases h (requestPacket command inBuff false) with
    ⟨c, t, more, hsend, hque, hshut, htorn, hwhole⟩ | ⟨-, hsend⟩
  · rw [hsend]
    exact ⟨[], {
      same := ⟨id, rfl, rfl, rfl, rfl, rfl, rfl, rfl, rfl⟩
      released := rfl
      emits := ⟨(List.append_nil _).symm, fun q hq => absurd hq List.not_mem_nil,
        ⟨more, hque, fun ht => by rw [hwhole ht]; rfl⟩, htorn⟩
      plain := fun q hq => absurd hq List.not_mem_nil
      issued := (List.append_nil _).symm
      said := rfl
      handlers := (List.append_nil _).symm
      given := by simp
      failed := (List.append_nil _).symm
      shut := hshut
      unshut := fun hne => absurd rfl hne }⟩
  · rw [hsend]
    exact ⟨[requestPacket command inBuff false], {
      same := ⟨id, rfl, rfl, rfl, rfl, rfl, rfl, rfl, rfl⟩
      released := rfl
      emits := ⟨rfl, fun q hq => List.mem_singleton.1 hq ▸ requestPacket_sound ..,
        ⟨_, rfl, fun _ => by simp [packetsToBytes, Packet.toBytes]⟩, id⟩
      plain := fun q hq => List.mem_singleton.1 hq ▸ requestPacket_isResponse ..
      issued := (List.append_nil _).symm
      said := by
        rw [List.filter_cons, requestPacket_isRequest]
        rfl
      handlers := (List.append_nil _).symm
      given := by simp [Past.send]
      failed := (List.append_nil _).symm
      shut := rfl
      unshut := fun hne => absurd rfl hne }⟩

/-- A callback that is given an error may close the connection. -/
theorem giveError_cases (h : AsyncProtocolHandler α κ) (cb : κ) (err : Int32) : ∃ context,
    h.giveError g (close g) cb err =
        { h with mConnectionContext := context, past := h.past.fail cb err } ∨
      h.giveError g (close g) cb err =
        close g { h with mConnectionContext := context, past := h.past.fail cb err } := by
  refine ⟨(g.mPcommandsHandler.callbackFailed cb err h.mConnectionContext).1, ?_⟩
  unfold giveError
  simp only
  split
  · exact .inr rfl
  · exact .inl rfl

/-- A call sends at most its packet; its callback waits, or has been told that the call is lost. -/
theorem asyncInvoke_sends (h : AsyncProtocolHandler α κ) (command : Int32) (inBuff : Sendable)
    (cb : κ) : ∃ h₁ qs new lost, Sends h h₁ qs new lost ∧
      (h.asyncInvoke g command inBuff cb = h₁ ∨ h.asyncInvoke g command inBuff cb = h₁.close g) := by
  unfold asyncInvoke
  simp only
  rcases sendPacket_cases { h with past := h.past.give cb } (requestPacket command inBuff true) with
    ⟨c, t, more, hsend, hque, hshut, htorn, hwhole⟩ | ⟨hopen, hsend⟩
  -- nothing was sent in full: the callback is told at once, and may close the connection
  · rw [hsend]
    obtain ⟨context, htold⟩ := giveError_cases (g := g) { h with
      mPserviceEndpoint := c
      past := { h.past.give cb with torn := t } } cb levinErrorConnection
    exact ⟨{ h with
      mPserviceEndpoint := c
      mConnectionContext := context
      past := ({ h.past.give cb with torn := t } : Past κ).fail cb levinErrorConnection },
      [], [], [(cb, levinErrorConnection)], {
      same := ⟨id, rfl, rfl, rfl, rfl, rfl, rfl, rfl, rfl⟩
      released := rfl
      emits := ⟨(List.append_nil _).symm, fun q hq => absurd hq List.not_mem_nil,
        ⟨more, hque, fun ht => by rw [hwhole ht]; rfl⟩, htorn⟩
      plain := fun q hq => absurd hq List.not_mem_nil
      issued := (List.append_nil _).symm
      said := rfl
      handlers := (List.append_nil _).symm
      given := by
        show ((h.past.given ++ [cb] : List κ) : Multiset κ) = _
        simp only [List.map_cons, List.map_nil, Multiset.coe_add, List.append_nil]
      failed := rfl
      shut := hshut
      unshut := fun hne => absurd rfl hne }, htold⟩
  · have hadd : ¬ h.mPserviceEndpoint.mWasShutdown = true := by
      rw [show h.mPserviceEndpoint.mWasShutdown = false from hopen]
      exact Bool.false_ne_true
    rw [hsend]
    unfold addInvokeResponseHandler
    simp only [if_neg hadd]
    exact ⟨{ h with
      mPserviceEndpoint := { h.mPserviceEndpoint with
        mSendQue := h.mPserviceEndpoint.mSendQue ++
          [(requestPacket command inBuff true).head.toBytes, (requestPacket command inBuff true).body] }
      mWaitCount := h.mWaitCount + 1
      mInvokeResponseHandlers := h.mInvokeResponseHandlers ++ [⟨cb, true, false, false⟩]
      past := ((h.past.give cb).send (requestPacket command inBuff true)).issue cb command inBuff.1 },
      [requestPacket command inBuff true], [⟨cb, command, inBuff.1⟩], [], {
      same := ⟨id, rfl, rfl, rfl, rfl, rfl, rfl, rfl, rfl⟩
      released := rfl
      emits := ⟨rfl, fun q hq => List.mem_singleton.1 hq ▸ requestPacket_sound ..,
        ⟨_, rfl, fun _ => by simp [packetsToBytes, Packet.toBytes]⟩, id⟩
      plain := fun q hq => List.mem_singleton.1 hq ▸ requestPacket_isResponse ..
      issued := rfl
      said := by
        rw [List.filter_cons, requestPacket_isRequest]
        rfl
      handlers := rfl
      given := by
        show ((h.past.given ++ [cb] : List κ) : Multiset κ) = _
        simp only [List.map_cons, List.map_nil, Multiset.coe_add, List.append_nil]
      failed := (List.append_nil _).symm
      shut := rfl
      unshut := fun _ => hopen }, .inl rfl⟩

/-- Calls lead from `h` to `h'`: they send, or they close the connection. -/
inductive Leads (g : Config α κ) (h : AsyncProtocolHandler α κ) : AsyncProtocolHandler α κ → Prop where
  | refl : Leads g h h
  | sends {h₁ h₂ : AsyncProtocolHandler α κ} {qs : List Packet} {new : List (Issued κ)}
      {lost : List (κ × Int32)} (before : Leads g h h₁) (sent : Sends h₁ h₂ qs new lost) :
      Leads g h h₂
  | close {h₁ : AsyncProtocolHandler α κ} (before : Leads g h h₁) : Leads g h (h₁.close g)

/-- One more call at the end of some steps. -/
theorem call_leads {h₁ : AsyncProtocolHandler α κ} (hl : Leads g h h₁) (c : Call κ) :
    Leads g h (h₁.call g c) := by
  cases c with
  | notify command inBuff =>
    obtain ⟨qs, hs⟩ := notify_sends h₁ command inBuff
    exact hl.sends hs
  | asyncInvoke command inBuff cb =>
    obtain ⟨h₂, qs, new, lost, hs, hcall | hcall⟩ := asyncInvoke_sends (g := g) h₁ command inBuff cb
    · show Leads g h (h₁.asyncInvoke g command inBuff cb)
      rw [hcall]
      exact hl.sends hs
    · show Leads g h (h₁.asyncInvoke g command inBuff cb)
      rw [hcall]
      exact (hl.sends hs).close
  | close => exact hl.close

/-- All calls of a handler, one by one. -/
theorem calls_leads (h : AsyncProtocolHandler α κ) (cs : List (Call κ)) :
    Leads g h (h.calls g cs) := by
  have hfrom : ∀ (cs : List (Call κ)) (h₁ : AsyncProtocolHandler α κ), Leads g h h₁ →
      Leads g h (h₁.calls g cs) := by
    intro cs
    induction cs with
    | nil => exact fun h₁ hl => hl
    | cons c cs ih => exact fun h₁ hl => ih (h₁.call g c) (call_leads hl c)
  exact hfrom cs h .refl

/-- What sending and closing keep, calls keep. -/
theorem Leads.keeps {I : AsyncProtocolHandler α κ → Prop} (hl : Leads g h h')
    (hsends : ∀ {h₁ h₂ : AsyncProtocolHandler α κ} {qs : List Packet} {new : List (Issued κ)}
      {lost : List (κ × Int32)}, I h₁ → Sends h₁ h₂ qs new lost → I h₂)
    (hclose : ∀ {h₁ : AsyncProtocolHandler α κ}, I h₁ → I (h₁.close g)) (hI : I h) : I h' := by
  induction hl with
  | refl => exact hI
  | sends _ hs ih => exact hsends ih hs
  | close _ ih => exact hclose ih

/-! ## What a handler keeps -/

/-- The first callback cannot be given a response any more. -/
def Stuck (handlers : List (AnvokeHandler κ)) : Prop :=
  ∃ x xs, handlers = x :: xs ∧ x.waiting = false

/-- A callback is given a response. -/
def answerOf (i : Issued κ) (r : Int32 × Blob) : κ × Int32 × Blob := (i.cb, r.1, r.2)

/-- The callbacks whose timers run. -/
def waitingCbs (handlers : List (AnvokeHandler κ)) : List κ :=
  (handlers.filter AnvokeHandler.waiting).map AnvokeHandler.mCb

/-- What a handler keeps, whatever it is sent. -/
structure Kept (h : AsyncProtocolHandler α κ) : Prop where
  released : h.mProtocolReleased = h.mPserviceEndpoint.mWasShutdown
  emptied : h.mProtocolReleased = true → h.mInvokeResponseHandlers = []
  timers : ∀ x ∈ h.mInvokeResponseHandlers,
    x.mCancelTimerCalled = true → x.waiting = false ∧ x.mTimerCancelled = false
  asked : h.past.issued.map Issued.said = h.past.requestsSent
  served : h.past.served.map Served.asked = h.past.requestsReceived
  replied : h.past.responsesSent <+: h.past.served.map Served.replied
  counted : h.past.answered.length ≤ h.past.issued.length
  answered : h.past.strayed = false →
    h.past.answered <+: List.zipWith answerOf h.past.issued h.past.responsesReceived
  pending : h.mProtocolReleased = false → h.mInvokeResponseHandlers.map AnvokeHandler.mCb =
    (h.past.issued.drop h.past.answered.length).map Issued.cb
  onceEach : (h.past.given : Multiset κ) =
    (h.past.answered.map Prod.fst : Multiset κ) + (h.past.failed.map Prod.fst : Multiset κ) +
      (h.timeouts : Multiset κ) + (waitingCbs h.mInvokeResponseHandlers : Multiset κ)

/-- What holds besides while the handler receives; the replies `owed` are still to be sent. -/
structure Going (owed : List (Int32 × Blob)) (h : AsyncProtocolHandler α κ) : Prop where
  version : h.mState = .body → h.mOponentProtocolVer = h.mCurrentHead.mProtocolVersion
  complete : h.past.responsesSent ++ owed = h.past.served.map Served.replied
  inOrder : h.past.strayed = true ∨ h.mProtocolReleased = true ∨ Stuck h.mInvokeResponseHandlers ∨
    h.past.answered.length = h.past.responsesReceived.length

/-- Kept, and going on while the connection is read. -/
def Holding (reading : Prop) (owed : List (Int32 × Blob)) (h : AsyncProtocolHandler α κ) : Prop :=
  h.Kept ∧ (reading → h.Going owed)

variable {reading : Prop} {owed : List (Int32 × Blob)}

/-- Pairing respects prefixes on both sides. -/
theorem prefix_zipWith {β γ δ : Type} (f : β → γ → δ) {a a' : List β} {b b' : List γ}
    (ha : a <+: a') (hb : b <+: b') : List.zipWith f a b <+: List.zipWith f a' b' := by
  induction a generalizing a' b b' with
  | nil => exact List.nil_prefix
  | cons x a ih =>
    cases b with
    | nil => exact List.nil_prefix
    | cons y b =>
      obtain ⟨a'', rfl⟩ := ha
      obtain ⟨b'', rfl⟩ := hb
      exact (List.prefix_cons_inj _).2 (ih (List.prefix_append ..) (List.prefix_append ..))

/-- One more on the right is paired with the first on the left that has no partner yet. -/
theorem zipWith_concat {β γ δ : Type} (f : β → γ → δ) {a rest : List β} {b : List γ} {x : β}
    {y : γ} (h : a.drop b.length = x :: rest) :
    List.zipWith f a (b ++ [y]) = List.zipWith f a b ++ [f x y] := by
  induction b generalizing a with
  | nil =>
    rw [List.length_nil, List.drop_zero] at h
    rw [h, List.nil_append, List.zipWith_cons_cons, List.zipWith_nil_right, List.zipWith_nil_right]
    rfl
  | cons z b ih =>
    cases a with
    | nil => cases h
    | cons w a => exact congrArg (f w z :: ·) (ih h)

theorem waitingCbs_append (xs ys : List (AnvokeHandler κ)) :
    waitingCbs (xs ++ ys) = waitingCbs xs ++ waitingCbs ys := by
  unfold waitingCbs
  rw [List.filter_append, List.map_append]

theorem waitingCbs_newHandler (new : List (Issued κ)) :
    waitingCbs (new.map newHandler) = new.map Issued.cb := by
  unfold waitingCbs
  rw [List.filter_eq_self.2 (by rintro x hx; obtain ⟨i, -, rfl⟩ := List.mem_map.1 hx; rfl),
    List.map_map]
  rfl

variable {qs : List Packet} {new : List (Issued κ)} {lost : List (κ × Int32)}

theorem Sends.requestsSent (hs : Sends h h' qs new lost) :
    h'.past.requestsSent = h.past.requestsSent ++ new.map Issued.said := by
  unfold Past.requestsSent
  rw [hs.emits.sent, hs.said, List.filter_append, List.map_append]

/-- and no response, -/
theorem Sends.responsesSent (hs : Sends h h' qs new lost) :
    h'.past.responsesSent = h.past.responsesSent := by
  have hnone : qs.filter Packet.isResponse = [] := by
    rw [List.filter_eq_nil_iff]
    intro q hq
    rw [hs.plain q hq]
    exact Bool.false_ne_true
  unfold Past.responsesSent
  rw [hs.emits.sent, List.filter_append, hnone, List.append_nil]

theorem Sends.requestsReceived (hs : Sends h h' qs new lost) :
    h'.past.requestsReceived = h.past.requestsReceived := by
  unfold Past.requestsReceived
  rw [hs.same.received]

theorem Sends.responsesReceived (hs : Sends h h' qs new lost) :
    h'.past.responsesReceived = h.past.responsesReceived := by
  unfold Past.responsesReceived
  rw [hs.same.received]

/-- Calling keeps the account of calls and answers. -/
theorem Kept.sends (hk : h.Kept) (hs : Sends h h' qs new lost) : h'.Kept where
  released := by rw [hs.released, hs.shut, hk.released]
  emptied hrel := by
    rw [hs.released] at hrel
    -- nothing is issued on a connection that was shut down
    have hnew : new = [] := by
      by_contra hne
      have hopen := hs.unshut hne
      rw [← hk.released, hrel] at hopen
      cases hopen
    rw [hs.handlers, hk.emptied hrel, hnew]
    rfl
  timers x hx hcalled := by
    rw [hs.handlers] at hx
    rcases List.mem_append.1 hx with hx | hx
    · exact hk.timers x hx hcalled
    · obtain ⟨i, -, rfl⟩ := List.mem_map.1 hx
      cases hcalled
  asked := by rw [hs.issued, List.map_append, hk.asked, hs.requestsSent]
  served := by rw [hs.same.served, hk.served, hs.requestsReceived]
  replied := by
    rw [hs.responsesSent, hs.same.served]
    exact hk.replied
  counted := by
    rw [hs.same.answered, hs.issued, List.length_append]
    exact Nat.le_add_right_of_le hk.counted
  answered hstray := by
    rw [hs.same.strayed] at hstray
    rw [hs.same.answered, hs.issued, hs.responsesReceived]
    exact (hk.answered hstray).trans (prefix_zipWith _ (List.prefix_append ..) List.prefix_rfl)
  pending hrel := by
    rw [hs.released] at hrel
    rw [hs.handlers, List.map_append, hk.pending hrel, hs.issued, hs.same.answered,
      List.drop_append_of_le_length hk.counted, List.map_append, List.map_map]
    rfl
  onceEach := by
    rw [hs.given, hk.onceEach, hs.same.answered, hs.failed, hs.same.timeouts, hs.handlers,
      waitingCbs_append, waitingCbs_newHandler, List.map_append, ← Multiset.coe_add,
      ← Multiset.coe_add]
    abel

theorem Stuck.append {xs ys : List (AnvokeHandler κ)} (h : Stuck xs) : Stuck (xs ++ ys) := by
  obtain ⟨x, xs, rfl, hx⟩ := h
  exact ⟨x, xs ++ ys, rfl, hx⟩

/-- Calling changes nothing about what is owed. -/
theorem Going.sends (hg : h.Going owed) (hs : Sends h h' qs new lost) : h'.Going owed where
  version hstate := by
    rw [hs.same.mState] at hstate
    rw [hs.same.mOponentProtocolVer, hs.same.mCurrentHead]
    exact hg.version hstate
  complete := by rw [hs.responsesSent, hs.same.served, hg.complete]
  inOrder := by
    rw [hs.same.strayed, hs.released, hs.handlers, hs.same.answered, hs.responsesReceived]
    rcases hg.inOrder with hstray | hrel | hstuck | hlen
    · exact .inl hstray
    · exact .inr (.inl hrel)
    · exact .inr (.inr (.inl hstuck.append))
    · exact .inr (.inr (.inr hlen))

theorem Holding.sends (hh : h.Holding reading owed) (hs : Sends h h' qs new lost) :
    h'.Holding reading owed :=
  ⟨hh.1.sends hs, fun hr => (hh.2 hr).sends hs⟩

/-! ## Closing -/

/-- A timer can be cancelled just as long as the call waits. -/
theorem Kept.cancelTimer (hk : h.Kept) {x : AnvokeHandler κ}
    (hx : x ∈ h.mInvokeResponseHandlers) : x.cancelTimer.1 = x.waiting := by
  unfold AnvokeHandler.cancelTimer
  split
  · next hcalled =>
    obtain ⟨hwaiting, hcancelled⟩ := hk.timers x hx hcalled
    rw [hwaiting, hcancelled]
  · rfl

theorem waitingCbs_cons {x : AnvokeHandler κ} (hx : x.waiting = true)
    (xs : List (AnvokeHandler κ)) : waitingCbs (x :: xs) = x.mCb :: waitingCbs xs := by
  unfold waitingCbs
  rw [List.filter_cons, if_pos hx, List.map_cons]

theorem waitingCbs_cons_of_not {x : AnvokeHandler κ} (hx : x.waiting = false)
    (xs : List (AnvokeHandler κ)) : waitingCbs (x :: xs) = waitingCbs xs := by
  unfold waitingCbs
  rw [List.filter_cons, hx, if_neg Bool.false_ne_true]

/-- After the shutdown a callback that closes the connection changes nothing about it. -/
theorem giveError_of_shutdown (hshut : h.mPserviceEndpoint.mWasShutdown = true)
    (hrel : h.mProtocolReleased = true) (cb : κ) (err : Int32) : ∃ context c closed,
      c.mWasShutdown = true ∧ h.giveError g closeUnwaited cb err = { h with
        mPserviceEndpoint := c
        mConnectionContext := context
        mCloseCalled := closed
        past := h.past.fail cb err } := by
  refine ⟨(g.mPcommandsHandler.callbackFailed cb err h.mConnectionContext).1, ?_⟩
  unfold giveError closeUnwaited
  simp only
  split
  · split
    · refine ⟨{ h.mPserviceEndpoint with mWantCloseConnection := true, mWasShutdown := true }, true,
        rfl, ?_⟩
      rw [hrel]
    · exact ⟨{ h.mPserviceEndpoint with mWantCloseConnection := true }, true, hshut, rfl⟩
  · exact ⟨h.mPserviceEndpoint, h.mCloseCalled, hshut, rfl⟩

/-- Those whose timers run are told that the connection is gone. -/
theorem foldl_cancel {xs : List (AnvokeHandler κ)} (hxs : ∀ x ∈ xs, x.cancelTimer.1 = x.waiting)
    {h : AsyncProtocolHandler α κ} (hshut : h.mPserviceEndpoint.mWasShutdown = true)
    (hrel : h.mProtocolReleased = true) : ∃ context c closed waitCount,
      c.mWasShutdown = true ∧ xs.foldl (cancel g) h = { h with
        mPserviceEndpoint := c
        mConnectionContext := context
        mCloseCalled := closed
        mWaitCount := waitCount
        past := { h.past with
          failed := h.past.failed ++ (waitingCbs xs).map (·, levinErrorConnectionDestroyed) } } := by
  induction xs generalizing h with
  | nil =>
    exact ⟨h.mConnectionContext, h.mPserviceEndpoint, h.mCloseCalled, h.mWaitCount, hshut, by
      simp [waitingCbs]⟩
  | cons x xs ih =>
    have hx := hxs x (List.mem_cons_self ..)
    have hrest := fun y hy => hxs y (List.mem_cons_of_mem _ hy)
    rw [List.foldl_cons]
    unfold cancel
    cases hwaiting : x.waiting with
    | false =>
      rw [hx, hwaiting, if_neg Bool.false_ne_true, waitingCbs_cons_of_not hwaiting]
      exact ih hrest hshut hrel
    | true =>
      rw [hx, hwaiting, if_pos rfl, waitingCbs_cons hwaiting]
      obtain ⟨context, c, closed, hc, htold⟩ := giveError_of_shutdown (g := g) hshut hrel x.mCb
        levinErrorConnectionDestroyed
      rw [htold]
      obtain ⟨context', c', closed', waitCount, hc', hfold⟩ := ih hrest (h := { h with
        mPserviceEndpoint := c
        mConnectionContext := context
        mCloseCalled := closed
        mWaitCount := h.mWaitCount - 1
        past := h.past.fail x.mCb levinErrorConnectionDestroyed }) hc hrel
      refine ⟨context', c', closed', waitCount, hc', hfold.trans ?_⟩
      simp only [Past.fail, List.map_cons, List.append_assoc, List.singleton_append]

/-- `shutdown` tells every call that still waits, so each of them has been told once. -/
theorem Holding.shutdown (hh : h.Holding reading owed) :
    (h.shutdown g).Holding reading owed := by
  obtain ⟨hk, hg⟩ := hh
  unfold AsyncProtocolHandler.shutdown releaseProtocol
  simp only
  obtain ⟨context, c, closed, waitCount, hc, hfold⟩ := foldl_cancel (g := g)
    (fun x hx => hk.cancelTimer hx) (h := { h with
      mPserviceEndpoint := { h.mPserviceEndpoint with mWasShutdown := true }
      mInvokeResponseHandlers := []
      mProtocolReleased := true }) rfl rfl
  rw [hfold]
  refine ⟨{ hk with
    released := hc.symm
    emptied := fun _ => rfl
    timers := fun x hx => absurd hx List.not_mem_nil
    pending := fun hrel => Bool.noConfusion hrel
    onceEach := ?_ }, fun hr => ⟨(hg hr).version, (hg hr).complete, .inr (.inl rfl)⟩⟩
  show (h.past.given : Multiset κ) = (h.past.answered.map Prod.fst : Multiset κ) +
    ((h.past.failed ++ (waitingCbs h.mInvokeResponseHandlers).map
      (·, levinErrorConnectionDestroyed)).map Prod.fst : Multiset κ) +
    (h.timeouts : Multiset κ) + 0
  rw [hk.onceEach, List.map_append, List.map_map, ← Multiset.coe_add]
  rw [show Prod.fst ∘ (fun cb : κ => (cb, levinErrorConnectionDestroyed)) = id from rfl, List.map_id]
  abel

theorem Holding.endpoint (hh : h.Holding reading owed) {c : Connection}
    (hc : c.mWasShutdown = h.mPserviceEndpoint.mWasShutdown) (closed : Bool) :
    Holding reading owed { h with mPserviceEndpoint := c, mCloseCalled := closed } :=
  ⟨{ hh.1 with released := hh.1.released.trans hc.symm },
    fun hr => ⟨(hh.2 hr).version, (hh.2 hr).complete, (hh.2 hr).inOrder⟩⟩

/-- Closing the connection, at once or once the queue is sent. -/
theorem Holding.closeConnection (hh : h.Holding reading owed) :
    (h.closeConnection g).Holding reading owed := by
  have hwant := hh.endpoint (c := { h.mPserviceEndpoint with mWantCloseConnection := true }) rfl
    h.mCloseCalled
  unfold AsyncProtocolHandler.closeConnection
  simp only
  split
  · exact hwant.shutdown
  · exact hwant

/-- A handler that closes its own connection. -/
theorem Holding.close (hh : h.Holding reading owed) : (h.close g).Holding reading owed :=
  (hh.endpoint (c := h.mPserviceEndpoint) rfl true).closeConnection

/-- **Calls keep it.** -/
theorem Holding.leads (hh : h.Holding reading owed) (hl : Leads g h h') :
    h'.Holding reading owed :=
  hl.keeps (fun hh hs => hh.sends hs) (fun hh => hh.close) hh

end AsyncProtocolHandler

end DarknetSpace.Levin
