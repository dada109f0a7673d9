import DarknetSpace.Net.Calls

/-!
# Requests and their responses

A body that has come whole is a response, a request that wants something back, or
neither. What each of these does keeps `Kept`, and `Going` as long as
`handle_recv` goes on:

* a response pops the first handler, so that the answers given are the responses
  received, in order, each to the callback of the next request
  (`Kept.onResponse`). If the timer of that handler has gone off, it stays where it
  is, and no callback after it is given anything until the connection is closed;
* a request is served, and what is owed for it is sent when its handler has made
  its calls (`Kept.onRequest`).

With no handler left, a response is taken for one to an `invoke`: on a connection
that was closed and still has something to write it passes. That is how one can
stray; `Kept.onBody_strayed` says that this takes more responses than requests.
-/

namespace DarknetSpace.Levin

open Framing

namespace AsyncProtocolHandler

variable {α κ : Type} {g : Config α κ} {h h' : AsyncProtocolHandler α κ}

/-- A body that is read is a response or it is not. -/
theorem responsesReceived_readBody (h : AsyncProtocolHandler α κ) (body : Blob) :
    (h.readBody body).past.responsesReceived = h.past.responsesReceived ++
      if (⟨h.mCurrentHead, body⟩ : Packet).isResponse
      then [(h.mCurrentHead.mCommand.toInt32, body)] else [] := by
  show ((h.past.received ++ [_]).filter Packet.isResponse).map Packet.said = _
  rw [List.filter_append, List.map_append, List.filter_cons]
  split <;> rfl

/-- The same of requests. -/
theorem requestsReceived_readBody (h : AsyncProtocolHandler α κ) (body : Blob) :
    (h.readBody body).past.requestsReceived = h.past.requestsReceived ++
      if (⟨h.mCurrentHead, body⟩ : Packet).isRequest
      then [(h.mCurrentHead.mCommand.toInt32, body)] else [] := by
  show ((h.past.received ++ [_]).filter Packet.isRequest).map Packet.said = _
  rw [List.filter_append, List.map_append, List.filter_cons]
  split <;> rfl

/-- The next response is for the first callback. -/
theorem Kept.answer (hk : h.Kept) (hg : h.Going []) {x : AnvokeHandler κ}
    {xs : List (AnvokeHandler κ)} (hx : h.mInvokeResponseHandlers = x :: xs)
    (hwaiting : x.waiting = true) (r : Int32 × Blob) :
    ∃ i issued, h.past.issued.drop h.past.answered.length = i :: issued ∧ i.cb = x.mCb ∧
      xs.map AnvokeHandler.mCb = issued.map Issued.cb ∧
      (h.past.strayed = true ∨ h.past.answered.length = h.past.responsesReceived.length) ∧
      (h.past.strayed = false → h.past.answered ++ [answerOf i r] <+:
        List.zipWith answerOf h.past.issued (h.past.responsesReceived ++ [r])) := by
  have hrel : h.mProtocolReleased = false := by
    rw [← Bool.not_eq_true]
    intro hrel
    rw [hk.emptied hrel] at hx
    cases hx
  have hlen : h.past.strayed = true ∨ h.past.answered.length = h.past.responsesReceived.length := by
    rcases hg.inOrder with hstray | hrel' | ⟨y, ys, hy, hstuck⟩ | hlen
    · exact .inl hstray
    · rw [hrel'] at hrel
      cases hrel
    · rw [hx] at hy
      cases hy
      rw [hwaiting] at hstuck
      cases hstuck
    · exact .inr hlen
  have hpending := hk.pending hrel
  rw [hx, List.map_cons] at hpending
  cases hdrop : h.past.issued.drop h.past.answered.length with
  | nil =>
    rw [hdrop] at hpending
    cases hpending
  | cons i issued =>
    rw [hdrop, List.map_cons] at hpending
    obtain ⟨hcb, hcbs⟩ := List.cons_eq_cons.1 hpending
    refine ⟨i, issued, rfl, hcb.symm, hcbs, hlen, fun hstray => ?_⟩
    have hlen' : h.past.answered.length = h.past.responsesReceived.length :=
      hlen.resolve_left (by rw [hstray]; exact Bool.false_ne_true)
    -- all responses so far are answers, so the next one meets the first request left
    have hall : h.past.answered = List.zipWith answerOf h.past.issued h.past.responsesReceived := by
      have hcounted := hk.counted
      apply (hk.answered hstray).eq_of_length_le
      rw [List.length_zipWith]
      omega
    rw [zipWith_concat answerOf (hlen' ▸ hdrop), ← hall]

theorem Kept.readyForHead (hk : h.Kept) : h.readyForHead.Kept := { hk with }

theorem Kept.finish (hk : h.Kept) : Kept { h with mWaitCount := h.mWaitCount - 1 } := { hk with }

/-- A body that nothing has been done about. -/
theorem Kept.readBody (hk : h.Kept) {body : Blob}
    (hno : (⟨h.mCurrentHead, body⟩ : Packet).isRequest = false) : (h.readBody body).Kept :=
  { hk with
    served := by
      rw [requestsReceived_readBody, hno, if_neg Bool.false_ne_true, List.append_nil]
      exact hk.served
    answered := fun hstray => by
      rw [responsesReceived_readBody]
      exact (hk.answered hstray).trans (prefix_zipWith _ List.prefix_rfl (List.prefix_append ..)) }

theorem isRequest_of_isResponse {p : Packet} (h : p.isResponse = true) : p.isRequest = false := by
  unfold Packet.isRequest
  rw [h]
  rfl

/-- The first callback is given its response. -/
theorem Kept.answerFirst (hk : h.Kept) (hg : h.Going []) {x : AnvokeHandler κ}
    {xs : List (AnvokeHandler κ)} (hx : h.mInvokeResponseHandlers = x :: xs)
    (hwaiting : x.waiting = true) {body : Blob}
    (hp : (⟨h.mCurrentHead, body⟩ : Packet).isResponse = true) (context : α) :
    Holding True [] { h.readBody body with
      mInvokeResponseHandlers := xs
      mConnectionContext := context
      past := (h.readBody body).past.answer x.mCb h.mCurrentHead.mCommand.toInt32 body } := by
  obtain ⟨i, issued, hdrop, hcb, hcbs, hlen, hanswered⟩ :=
    hk.answer hg hx hwaiting (h.mCurrentHead.mCommand.toInt32, body)
  have hread := hk.readBody (isRequest_of_isResponse hp)
  -- the body that was read is one response more, and goes to the first that waits
  have hresponses := responsesReceived_readBody h body
  rw [hp, if_pos rfl] at hresponses
  refine ⟨{ hread with
    emptied := fun hrel => ?_
    timers := fun y hy => hk.timers y (hx ▸ List.mem_cons_of_mem _ hy)
    counted := ?_
    answered := fun hstray => ?_
    pending := fun _ => ?_
    onceEach := ?_ }, fun _ => ⟨hg.version, hg.complete, ?_⟩⟩
  · have hnil := hk.emptied hrel
    rw [hx] at hnil
    cases hnil
  · show (h.past.answered ++ [(x.mCb, _, _)]).length ≤ h.past.issued.length
    have hleft := congrArg List.length hdrop
    rw [List.length_drop, List.length_cons] at hleft
    rw [List.length_append, List.length_singleton]
    omega
  · show h.past.answered ++ [(x.mCb, _, _)] <+:
      List.zipWith answerOf h.past.issued (h.readBody body).past.responsesReceived
    rw [hresponses, ← hcb]
    exact hanswered hstray
  · show xs.map AnvokeHandler.mCb =
      (h.past.issued.drop (h.past.answered ++ [(x.mCb, _, _)]).length).map Issued.cb
    rw [hcbs, List.length_append, List.length_singleton, ← List.tail_drop, hdrop, List.tail_cons]
  · show (h.past.given : Multiset κ) =
      ((h.past.answered ++ [(x.mCb, _, _)]).map Prod.fst : Multiset κ) +
        (h.past.failed.map Prod.fst : Multiset κ) + (h.timeouts : Multiset κ) +
        (waitingCbs xs : Multiset κ)
    rw [hk.onceEach, hx, waitingCbs_cons hwaiting, List.map_append, ← Multiset.coe_add,
      ← Multiset.cons_coe, ← Multiset.singleton_add, List.map_cons, List.map_nil,
      Multiset.coe_singleton]
    abel
  · rcases hlen with hstray | hlen
    · exact .inl hstray
    · refine .inr (.inr (.inr ?_))
      show (h.past.answered ++ [(x.mCb, _, _)]).length =
        (h.readBody body).past.responsesReceived.length
      rw [hresponses, List.length_append, List.length_append, hlen]
      rfl

theorem Going.readyForHead (hg : h.Going []) : h.readyForHead.Going [] :=
  ⟨fun hs => StreamState.noConfusion hs, hg.complete, hg.inOrder⟩

/-- The timer of the first callback has gone off: it stays where it is. -/
theorem Kept.keepFirst (hk : h.Kept) (hg : h.Going []) {x y : AnvokeHandler κ}
    {xs : List (AnvokeHandler κ)} (hx : h.mInvokeResponseHandlers = x :: xs)
    (hwaiting : x.waiting = false) (hy : y.mCb = x.mCb ∧ y.waiting = false ∧ y.mTimerCancelled = false)
    {body : Blob} (hp : (⟨h.mCurrentHead, body⟩ : Packet).isResponse = true) :
    Holding True [] { h.readBody body with mInvokeResponseHandlers := y :: xs } := by
  have hread := hk.readBody (isRequest_of_isResponse hp)
  obtain ⟨hcb, hywaiting, hcancelled⟩ := hy
  refine ⟨{ hread with
    emptied := fun hrel => ?_
    timers := fun z hz hcalled => ?_
    pending := fun hrel => ?_
    onceEach := ?_ }, fun _ =>
      ⟨hg.version, hg.complete, .inr (.inr (.inl ⟨y, xs, rfl, hywaiting⟩))⟩⟩
  · have hnil := hk.emptied hrel
    rw [hx] at hnil
    cases hnil
  · rcases List.mem_cons.1 hz with rfl | hz
    · exact ⟨hywaiting, hcancelled⟩
    · exact hk.timers z (hx ▸ List.mem_cons_of_mem _ hz) hcalled
  · have hpending := hk.pending hrel
    rw [hx, List.map_cons, ← hcb] at hpending
    exact hpending
  · have honce := hk.onceEach
    rw [hx, waitingCbs_cons_of_not hwaiting, ← waitingCbs_cons_of_not hywaiting] at honce
    exact honce

/-- Cancelling too late changes nothing about what waits. -/
theorem cancelTimer_false {x y : AnvokeHandler κ} (h : x.cancelTimer = (false, y))
    (hwaiting : x.waiting = false) :
    y.mCb = x.mCb ∧ y.waiting = false ∧ y.mTimerCancelled = false := by
  unfold AnvokeHandler.cancelTimer at h
  split at h
  · obtain ⟨hcancelled, rfl⟩ := Prod.mk.inj h
    exact ⟨rfl, hwaiting, hcancelled⟩
  · obtain ⟨hnot, rfl⟩ := Prod.mk.inj h
    exact ⟨rfl, rfl, hnot⟩

/-- A response is received. -/
theorem Kept.onResponse (hk : h.Kept) (hg : h.Going []) {body : Blob}
    (hp : (⟨h.mCurrentHead, body⟩ : Packet).isResponse = true) {ok : Bool}
    (hout : (h.readBody body).onResponse g body = (ok, h')) :
    h'.Kept ∧ (ok = true → h'.readyForHead.Going []) := by
  have hread := hk.readBody (isRequest_of_isResponse hp)
  unfold AsyncProtocolHandler.onResponse at hout
  split at hout
  · next x xs hx =>
    have hcancel := hk.cancelTimer (x := x) (hx ▸ List.mem_cons_self ..)
    have hx' : h.mInvokeResponseHandlers = x :: xs := hx
    split at hout
    · next y hc =>
      rw [hc] at hcancel
      have hanswered := hk.answerFirst hg hx' hcancel.symm hp
        (g.mPcommandsHandler.callback x.mCb h.mCurrentHead.mCommand.toInt32 body
          h.mConnectionContext).1
      simp only [Prod.mk.injEq] at hout
      obtain ⟨-, rfl⟩ := hout
      have hcalled := hanswered.leads (calls_leads (g := g) _
        (g.mPcommandsHandler.callback x.mCb h.mCurrentHead.mCommand.toInt32 body
          h.mConnectionContext).2)
      exact ⟨hcalled.1.finish, fun _ =>
        ⟨fun hs => StreamState.noConfusion hs, (hcalled.2 trivial).complete,
          (hcalled.2 trivial).inOrder⟩⟩
    · next y hc =>
      cases hout
      rw [hc] at hcancel
      have hkept := hk.keepFirst hg hx' hcancel.symm (cancelTimer_false hc hcancel.symm) hp
      exact ⟨hkept.1, fun _ => (hkept.2 trivial).readyForHead⟩
  · next hx =>
    split at hout
    · cases hout
      exact ⟨hread, fun ht => Bool.noConfusion ht⟩
    · cases hout
      -- before the shutdown it strays, after it no callback is given anything
      by_cases hrel : (h.readBody body).mProtocolReleased = true
      · have hstrayed : (h.past.strayed || !(h.readBody body).mProtocolReleased) = h.past.strayed := by
          rw [hrel]
          exact Bool.or_false _
        refine ⟨{ hread with
          answered := fun hstray => hread.answered (hstrayed.symm.trans hstray) }, fun _ =>
            ⟨fun hs => StreamState.noConfusion hs, hg.complete, .inr (.inl hrel)⟩⟩
      · have hstrayed : (h.past.strayed || !(h.readBody body).mProtocolReleased) = true := by
          rw [Bool.eq_false_iff.2 hrel]
          exact Bool.or_true _
        refine ⟨{ hread with
          answered := fun hstray => absurd (hstrayed.symm.trans hstray) Bool.noConfusion }, fun _ =>
            ⟨fun hs => StreamState.noConfusion hs, hg.complete, .inl hstrayed⟩⟩

/-- A body that was no response. -/
theorem Going.readBody (hg : h.Going []) {body : Blob}
    (hp : (⟨h.mCurrentHead, body⟩ : Packet).isResponse = false) : (h.readBody body).Going [] := by
  refine ⟨hg.version, hg.complete, ?_⟩
  have hresponses := responsesReceived_readBody h body
  rw [hp, if_neg Bool.false_ne_true, List.append_nil] at hresponses
  rw [hresponses]
  exact hg.inOrder

theorem isRequest_of_not_isResponse {p : Packet} (h : p.isResponse = false) :
    p.isRequest = p.head.mHaveToReturnData := by
  unfold Packet.isRequest
  rw [h]
  rfl

theorem responsePacket_isResponse (head : BucketHead2) (code : Int32) (buffOut : Blob) :
    (⟨responseHead head code buffOut, buffOut⟩ : Packet).isResponse = true := by
  show (levinProtocolVer1 == levinProtocolVer1 && levinPacketResponse &&& levinPacketResponse != 0) =
    true
  decide

/-- What is owed is sent, or the connection reads no more. -/
theorem Kept.sendResponse (hk : h.Kept) {command : Int32} {buffOut : Blob}
    (hg : h.Going [(command, buffOut)]) (hcommand : command = h.mCurrentHead.mCommand.toInt32)
    {code : Int32} {ok : Bool} (hout : h.sendResponse code buffOut = (ok, h')) :
    h'.Kept ∧ (ok = true → h'.readyForHead.Going []) := by
  subst hcommand
  unfold AsyncProtocolHandler.sendResponse at hout
  simp only at hout
  rcases doSend_cases h.mPserviceEndpoint
      ((responseHead h.mCurrentHead code buffOut).toBytes ++ buffOut) with
    ⟨c, hsend, hque, hshut⟩ | ⟨hopen, hsend⟩
  · rw [hsend] at hout
    cases hout
    exact ⟨{ hk with released := hk.released.trans hshut.symm }, fun ht => Bool.noConfusion ht⟩
  · rw [hsend] at hout
    cases hout
    have hresponse := responsePacket_isResponse h.mCurrentHead code buffOut
    have hsent : ((h.past.sent ++ [Packet.mk (responseHead h.mCurrentHead code buffOut) buffOut]).filter
        Packet.isResponse).map Packet.said =
          h.past.responsesSent ++ [(h.mCurrentHead.mCommand.toInt32, buffOut)] := by
      rw [List.filter_append, List.map_append, List.filter_cons, if_pos hresponse]
      rfl
    have hcomplete := hsent.trans hg.complete
    refine ⟨{ hk with
      asked := ?_
      replied := hcomplete ▸ List.prefix_rfl }, fun _ => ⟨fun hs => StreamState.noConfusion hs, ?_, hg.inOrder⟩⟩
    · show h.past.issued.map Issued.said = ((h.past.sent ++ [_]).filter Packet.isRequest).map Packet.said
      rw [List.filter_append, List.map_append, List.filter_cons,
        isRequest_of_isResponse hresponse, if_neg Bool.false_ne_true]
      exact hk.asked.trans (List.append_nil _).symm
    · show (((h.past.sent ++ [_]).filter Packet.isResponse).map Packet.said) ++ [] = _
      rw [List.append_nil]
      exact hcomplete

/-- A request is answered, or the connection reads no more. -/
theorem Kept.onRequest (hk : h.Kept) (hg : h.Going []) {body : Blob}
    (hp : (⟨h.mCurrentHead, body⟩ : Packet).isResponse = false)
    (hreturn : h.mCurrentHead.mHaveToReturnData = true) {ok : Bool}
    (hout : (h.readBody body).onRequest g body = (ok, h')) :
    h'.Kept ∧ (ok = true → h'.readyForHead.Going []) := by
  have hrequest := (isRequest_of_not_isResponse hp).trans hreturn
  have hrequests := requestsReceived_readBody h body
  rw [hrequest, if_pos rfl] at hrequests
  have hread := hg.readBody hp
  unfold AsyncProtocolHandler.onRequest at hout
  simp only at hout
  generalize hr : g.mPcommandsHandler.invoke _ _ _ = r at hout
  -- the answer is made
  have hserved : Kept { h.readBody body with
      mConnectionContext := r.context
      past := (h.readBody body).past.serve h.mCurrentHead.mCommand.toInt32 body r.buffOut } :=
    { hk with
      served := by
        show (h.past.served ++ [_]).map Served.asked = (h.readBody body).past.requestsReceived
        rw [hrequests, List.map_append, hk.served]
        rfl
      replied := by
        show h.past.responsesSent <+: (h.past.served ++ [_]).map Served.replied
        rw [List.map_append]
        exact hk.replied.trans (List.prefix_append ..)
      answered := fun hstray => by
        show h.past.answered <+:
          List.zipWith answerOf h.past.issued (h.readBody body).past.responsesReceived
        rw [responsesReceived_readBody]
        exact (hk.answered hstray).trans
          (prefix_zipWith _ List.prefix_rfl (List.prefix_append ..)) }
  have howed : Going [(h.mCurrentHead.mCommand.toInt32, r.buffOut)] { h.readBody body with
      mConnectionContext := r.context
      past := (h.readBody body).past.serve h.mCurrentHead.mCommand.toInt32 body r.buffOut } := by
    refine ⟨hread.version, ?_, hread.inOrder⟩
    show h.past.responsesSent ++ [_] = (h.past.served ++ [_]).map Served.replied
    rw [List.map_append, ← hg.complete, List.append_nil]
    rfl
  have hholding : Holding True [(h.mCurrentHead.mCommand.toInt32, r.buffOut)] { h.readBody body with
      mConnectionContext := r.context
      past := (h.readBody body).past.serve h.mCurrentHead.mCommand.toInt32 body r.buffOut } :=
    ⟨hserved, fun _ => howed⟩
  have hcalled := hholding.leads (calls_leads (g := g) _ r.calls)
  have hsame := calls_sameReading (g := g) { h.readBody body with
    mConnectionContext := r.context
    past := (h.readBody body).past.serve h.mCurrentHead.mCommand.toInt32 body r.buffOut } r.calls
  have hcommand := congrArg (fun head => head.mCommand.toInt32) hsame.mCurrentHead
  exact hcalled.1.sendResponse (hcalled.2 trivial) hcommand.symm hout

/-- A body is received. -/
theorem Kept.onBody (hk : h.Kept) (hg : h.Going []) (hstate : h.mState = .body) {body : Blob}
    {ok : Bool} (hout : (h.readBody body).onBody g body = (ok, h')) :
    h'.Kept ∧ (ok = true → h'.readyForHead.Going []) := by
  have hversion : isResponse (h.readBody body).mOponentProtocolVer (h.readBody body).mCurrentHead =
      (⟨h.mCurrentHead, body⟩ : Packet).isResponse :=
    congrArg (isResponse · h.mCurrentHead) (hg.version hstate)
  unfold AsyncProtocolHandler.onBody at hout
  rw [hversion] at hout
  cases hp : (⟨h.mCurrentHead, body⟩ : Packet).isResponse with
  | true =>
    rw [hp, if_pos rfl] at hout
    exact hk.onResponse hg hp hout
  | false =>
    rw [hp, if_neg Bool.false_ne_true] at hout
    split at hout
    · next hreturn => exact hk.onRequest hg hp hreturn hout
    · next hnot =>
      have hrequest := isRequest_of_not_isResponse hp
      rw [Bool.not_eq_true] at hnot
      obtain ⟨-, rfl⟩ := Prod.mk.inj hout
      have hread : Holding True [] { h.readBody body with
          mConnectionContext := (g.mPcommandsHandler.notify h.mCurrentHead.mCommand.toInt32 body
            h.mConnectionContext).1 } :=
        ⟨{ hk.readBody (hrequest.trans hnot) with }, fun _ =>
          ⟨(hg.readBody hp).version, (hg.readBody hp).complete, (hg.readBody hp).inOrder⟩⟩
      have hcalled := hread.leads (calls_leads (g := g) _
        (g.mPcommandsHandler.notify h.mCurrentHead.mCommand.toInt32 body h.mConnectionContext).2)
      exact ⟨hcalled.1, fun _ => (hcalled.2 trivial).readyForHead⟩

/-- One turn of the loop. -/
theorem Kept.turn {cache rest : Blob} (hk : h.Kept) (hg : h.Going [])
    (ht : turn g h cache = .take h' rest) : h'.Kept ∧ h'.Going [] := by
  rcases turn_take ht with ⟨hstate, -, -, h₁, hbody, rfl⟩ | ⟨hstate, -, -, -, -, rfl⟩
  · obtain ⟨hk₁, hg₁⟩ := hk.onBody hg hstate hbody
    exact ⟨hk₁.readyForHead, hg₁ rfl⟩
  · exact ⟨{ hk with }, fun _ => rfl, hg.complete, hg.inOrder⟩

/-- Giving up keeps the account too. -/
theorem Kept.turn_stop {cache : Blob} (hk : h.Kept) (hg : h.Going [])
    (ht : AsyncProtocolHandler.turn g h cache = .stop h') : h'.Kept := by
  rcases AsyncProtocolHandler.turn_stop ht with ⟨hstate, -, hbody⟩ | ⟨-, rfl | ⟨head, rfl⟩⟩
  · exact (hk.onBody hg hstate hbody).1
  · exact hk
  · exact { hk with }

/-! ## What strays -/

/-- Answering loses no response. -/
theorem sendResponse_strayed (h : AsyncProtocolHandler α κ) (code : Int32) (buffOut : Blob) :
    (h.sendResponse code buffOut).2.past.strayed = h.past.strayed := by
  unfold AsyncProtocolHandler.sendResponse
  simp only
  split <;> rfl

/-- A response strays only if there have been more responses than requests. -/
theorem Kept.onBody_strayed (hk : h.Kept) (hg : h.Going []) (hstate : h.mState = .body)
    (hstray : h.past.strayed = false) {body : Blob}
    (hasked : (h.readBody body).past.responsesReceived.length ≤ h.past.issued.length) :
    ((h.readBody body).onBody g body).2.past.strayed = false := by
  have hversion : isResponse (h.readBody body).mOponentProtocolVer (h.readBody body).mCurrentHead =
      (⟨h.mCurrentHead, body⟩ : Packet).isResponse :=
    congrArg (isResponse · h.mCurrentHead) (hg.version hstate)
  unfold AsyncProtocolHandler.onBody
  rw [hversion]
  split
  · next hp =>
    have hresponses := responsesReceived_readBody h body
    rw [hp, if_pos rfl] at hresponses
    unfold AsyncProtocolHandler.onResponse
    split
    · split
      · exact (calls_sameReading (g := g) _ _).strayed.trans hstray
      · exact hstray
    · next hnil =>
      split
      · exact hstray
      · show (h.past.strayed || !h.mProtocolReleased) = false
        rw [hstray, Bool.false_or]
        cases hrel : h.mProtocolReleased with
        | true => rfl
        | false =>
          -- all that was issued is answered, by as many responses
          exfalso
          have hnil' : h.mInvokeResponseHandlers = [] := hnil
          have hpending := congrArg List.length (hk.pending hrel)
          simp only [hnil', List.map_nil, List.length_nil, List.length_map, List.length_drop] at hpending
          rw [hresponses, List.length_append, List.length_singleton] at hasked
          rcases hg.inOrder with hstray' | hrel' | ⟨x, xs, hx, -⟩ | hlen
          · rw [hstray] at hstray'
            cases hstray'
          · rw [hrel] at hrel'
            cases hrel'
          · rw [hnil'] at hx
            cases hx
          · omega
  · split
    · unfold AsyncProtocolHandler.onRequest
      simp only
      rw [sendResponse_strayed]
      exact (calls_sameReading (g := g) _ _).strayed.trans hstray
    · exact (calls_sameReading (g := g) _ _).strayed.trans hstray

end AsyncProtocolHandler

end DarknetSpace.Levin
