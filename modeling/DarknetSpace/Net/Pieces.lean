import DarknetSpace.Net.Levin

/-!
# Packets that come in pieces

What is read of a connection may end anywhere in a packet. `turn` is steady: what
it takes off the cache, and where it gives up, does not change when more bytes
follow, so the loop of `handle_recv` may be interrupted and taken up again
(`turn_steady`, with `Framing.feed_feed`). `Awaits` says which packets the bytes
to come are, from the middle of a packet too; `deliver` hands packets over one at
a time.

`handle_recv` asks whether the connection was closed before it reads, and not
between one packet and the next. So a handler that closes its own connection is
followed by the packets that came in the same piece, and by no others: here the
cut can be seen. `handleRecv_packets` is about streams whose handlers leave the
connection open.

`SameReading` is what calls and closing keep of all that concerns receiving.
-/

namespace DarknetSpace.Levin

open Framing

namespace AsyncProtocolHandler

variable {α κ : Type} {g : Config α κ} {h h' : AsyncProtocolHandler α κ} {cache rest : Blob}

/-! ### One turn -/

/-- All that takes something off the cache. -/
theorem turn_take (ht : turn g h cache = .take h' rest) :
    (h.mState = .body ∧ h.mCurrentHead.mCb.toNat ≤ cache.length ∧
      rest = cache.drop h.mCurrentHead.mCb.toNat ∧
      ∃ h₁, (h.readBody (cache.take h.mCurrentHead.mCb.toNat)).onBody g
          (cache.take h.mCurrentHead.mCb.toNat) = (true, h₁) ∧ h' = h₁.readyForHead) ∨
    (h.mState = .head ∧ BucketHead2.size ≤ cache.length ∧ rest = cache.drop BucketHead2.size ∧
      (BucketHead2.ofBytes cache).mSignature = levinSignature ∧
      (BucketHead2.ofBytes cache).mCb.toNat ≤ g.mMaxPacketSize ∧
      h' = h.readHead (BucketHead2.ofBytes cache)) := by
  unfold turn at ht
  cases hstate : h.mState with
  | body =>
    simp only [hstate] at ht
    split at ht
    · cases ht
    · next hfit =>
      split at ht
      · cases ht
      · next h₁ hbody =>
        cases ht
        exact .inl ⟨rfl, by omega, rfl, h₁, hbody, rfl⟩
  | head =>
    simp only [hstate] at ht
    split at ht
    · split at ht <;> cases ht
    · next hfit =>
      split at ht
      · cases ht
      · next hsign =>
        split at ht
        · cases ht
        · next hmax =>
          cases ht
          exact .inr ⟨rfl, by omega, rfl, Decidable.not_not.1 hsign, by omega, rfl⟩

/-- All that ends the reading. -/
theorem turn_stop (ht : turn g h cache = .stop h') :
    (h.mState = .body ∧ h.mCurrentHead.mCb.toNat ≤ cache.length ∧
      (h.readBody (cache.take h.mCurrentHead.mCb.toNat)).onBody g
        (cache.take h.mCurrentHead.mCb.toNat) = (false, h')) ∨
    (h.mState = .head ∧ (h' = h ∨ ∃ head, h' = h.readHead head)) := by
  unfold turn at ht
  cases hstate : h.mState with
  | body =>
    simp only [hstate] at ht
    split at ht
    · cases ht
    · next hfit =>
      split at ht
      · next h₁ hbody =>
        cases ht
        exact .inl ⟨rfl, by omega, hbody⟩
      · cases ht
  | head =>
    simp only [hstate] at ht
    split at ht
    · split at ht
      · cases ht
        exact .inr ⟨rfl, .inl rfl⟩
      · cases ht
    · split at ht
      · cases ht
        exact .inr ⟨rfl, .inl rfl⟩
      · split at ht
        · cases ht
          exact .inr ⟨rfl, .inr ⟨_, rfl⟩⟩
        · cases ht

/-- A body that is there is taken the same way with more behind it. -/
theorem turn_of_body (hstate : h.mState = .body) (hfit : h.mCurrentHead.mCb.toNat ≤ cache.length)
    (more : Blob) : turn g h (cache ++ more) =
      match turn g h cache with
      | .take h' rest => .take h' (rest ++ more)
      | out => out := by
  have hlt : ¬ cache.length < h.mCurrentHead.mCb.toNat := by omega
  have hlt' : ¬ (cache ++ more).length < h.mCurrentHead.mCb.toNat := by
    rw [List.length_append]
    omega
  unfold turn
  simp only [hstate, if_neg hlt, if_neg hlt', List.take_append_of_le_length hfit,
    List.drop_append_of_le_length hfit]
  generalize onBody g _ _ = out
  obtain ⟨ok, h₁⟩ := out
  cases ok <;> rfl

/-- So is a head. -/
theorem turn_of_head (hstate : h.mState = .head) (hfit : BucketHead2.size ≤ cache.length)
    (more : Blob) : turn g h (cache ++ more) =
      match turn g h cache with
      | .take h' rest => .take h' (rest ++ more)
      | out => out := by
  have hlt : ¬ cache.length < BucketHead2.size := by omega
  have hlt' : ¬ (cache ++ more).length < BucketHead2.size := by
    rw [List.length_append]
    omega
  unfold turn
  simp only [hstate, if_neg hlt, if_neg hlt', BucketHead2.ofBytes_append hfit,
    List.drop_append_of_le_length hfit]
  split
  · rfl
  · split <;> rfl

theorem fieldAt_lt (s : Blob) (i : Nat) : fieldAt s i 8 < 2 ^ 64 := by
  unfold fieldAt
  calc podOfBytes ((s.drop i).take 8) < 256 ^ ((s.drop i).take 8).length := podOfBytes_lt _
    _ ≤ 256 ^ 8 := Nat.pow_le_pow_right (by omega) (List.length_take_le _ _)

/-- A wrong signature stays wrong. -/
theorem turn_of_signature (hstate : h.mState = .head) (hfit : 8 ≤ cache.length)
    (hsign : fieldAt cache 0 8 ≠ levinSignature.toNat) : turn g h cache = .stop h := by
  have hhead : (BucketHead2.ofBytes cache).mSignature ≠ levinSignature := by
    intro he
    apply hsign
    rw [← he]
    exact (UInt64.toNat_ofNat_of_lt' (fieldAt_lt cache 0)).symm
  unfold turn
  simp only [hstate]
  by_cases hlt : cache.length < BucketHead2.size
  · rw [if_pos hlt, if_pos ⟨hfit, hsign⟩]
  · rw [if_neg hlt, if_pos hhead]

/-- What a turn does is not changed by bytes that come later. -/
theorem turn_steady (g : Config α κ) : Steady (turn g) cost where
  stop_append {h cache h'} ht more := by
    cases hstate : h.mState with
    | body =>
      by_cases hfit : h.mCurrentHead.mCb.toNat ≤ cache.length
      · rw [turn_of_body hstate hfit, ht]
      · unfold turn at ht
        simp only [hstate] at ht
        rw [if_pos (by omega)] at ht
        cases ht
    | head =>
      by_cases hfit : BucketHead2.size ≤ cache.length
      · rw [turn_of_head hstate hfit, ht]
      · unfold turn at ht
        simp only [hstate] at ht
        rw [if_pos (by omega)] at ht
        split at ht
        · next hsign =>
          cases ht
          apply turn_of_signature hstate (by rw [List.length_append]; omega)
          rw [fieldAt_append (by omega)]
          exact hsign.2
        · cases ht
  take_append {h cache h' rest} ht more := by
    rcases turn_take ht with ⟨hstate, hfit, -⟩ | ⟨hstate, hfit, -⟩
    · rw [turn_of_body hstate hfit, ht]
    · rw [turn_of_head hstate hfit, ht]
  cost_lt {h cache h' rest} ht := by
    rcases turn_take ht with ⟨hstate, hfit, rfl, h₁, -, rfl⟩ | ⟨hstate, hfit, rfl, -, -, rfl⟩
    · unfold cost
      simp only [hstate, readyForHead, List.length_drop]
      omega
    · have hsize : BucketHead2.size = 33 := rfl
      unfold cost
      simp only [hstate, readHead, List.length_drop]
      omega

/-! ### Packets -/

/-- `stream` is what has not been read yet of the packets `ps`, which are to be received next. -/
def Awaits (h : AsyncProtocolHandler α κ) (ps : List Packet) (stream : Blob) : Prop :=
  match h.mState with
  | .head => stream = packetsToBytes ps
  | .body =>
    ∃ p ps', ps = p :: ps' ∧ h.mCurrentHead = p.head ∧ stream = p.body ++ packetsToBytes ps'

variable {ps : List Packet} {future : Blob}

theorem packetsToBytes_cons (p : Packet) (ps : List Packet) :
    packetsToBytes (p :: ps) = p.head.toBytes ++ (p.body ++ packetsToBytes ps) := by
  show (p.head.toBytes ++ p.body) ++ packetsToBytes ps = _
  rw [List.append_assoc]

/-- Every packet has at least one byte. -/
theorem length_le_packetsToBytes (ps : List Packet) : ps.length ≤ (packetsToBytes ps).length := by
  induction ps with
  | nil => exact Nat.zero_le _
  | cons p ps ih =>
    have hsize : BucketHead2.size = 33 := rfl
    rw [packetsToBytes_cons]
    simp only [List.length_append, List.length_cons, BucketHead2.toBytes_length]
    omega

/-- The body at hand is the one that was awaited. -/
theorem Awaits.body (ha : h.Awaits ps (cache ++ future)) (hsound : ∀ p ∈ ps, p.Sound)
    (hstate : h.mState = .body) (hfit : h.mCurrentHead.mCb.toNat ≤ cache.length) :
    ∃ p ps', ps = p :: ps' ∧ h.mCurrentHead = p.head ∧
      cache.take h.mCurrentHead.mCb.toNat = p.body ∧
      cache.drop h.mCurrentHead.mCb.toNat ++ future = packetsToBytes ps' := by
  unfold Awaits at ha
  simp only [hstate] at ha
  obtain ⟨p, ps', rfl, hhead, hstream⟩ := ha
  have hlen : h.mCurrentHead.mCb.toNat = p.body.length := by
    rw [hhead]
    exact (hsound p (List.mem_cons_self ..)).measured
  rw [hlen] at hfit ⊢
  refine ⟨p, ps', rfl, hhead, ?_, ?_⟩
  · have htake : (cache ++ future).take p.body.length = cache.take p.body.length :=
      List.take_append_of_le_length hfit
    rw [← htake, hstream, List.take_left]
  · rw [← List.drop_append_of_le_length hfit, hstream, List.drop_left]

/-- What is taken off the cache is the head that was awaited, or the body. -/
theorem Awaits.take (ha : h.Awaits ps (cache ++ future)) (hsound : ∀ p ∈ ps, p.Sound)
    (ht : turn g h cache = .take h' rest) :
    (∃ p ∈ ps, h' = h.readHead p.head ∧ h'.Awaits ps (rest ++ future)) ∨
    ∃ p ps' h₁, ps = p :: ps' ∧ h.mCurrentHead = p.head ∧
      (h.readBody p.body).onBody g p.body = (true, h₁) ∧ h' = h₁.readyForHead ∧
      h'.Awaits ps' (rest ++ future) := by
  rcases turn_take ht with ⟨hstate, hfit, rfl, h₁, hbody, rfl⟩ | ⟨hstate, hfit, rfl, -, -, rfl⟩
  · obtain ⟨p, ps', rfl, hhead, htake, hdrop⟩ := ha.body hsound hstate hfit
    rw [htake] at hbody
    exact .inr ⟨p, ps', h₁, rfl, hhead, hbody, rfl, hdrop⟩
  · unfold Awaits at ha
    simp only [hstate] at ha
    cases ps with
    | nil =>
      have hnil := congrArg List.length ha
      have hsize : BucketHead2.size = 33 := rfl
      simp only [List.length_append, packetsToBytes, List.flatMap_nil, List.length_nil] at hnil
      omega
    | cons p ps' =>
      rw [packetsToBytes_cons] at ha
      have hhead : BucketHead2.ofBytes cache = p.head := by
        rw [← BucketHead2.ofBytes_append hfit future, ha, BucketHead2.ofBytes_toBytes]
      refine .inl ⟨p, List.mem_cons_self .., by rw [hhead], p, ps', rfl, hhead, ?_⟩
      rw [← List.drop_append_of_le_length hfit, ha, ← BucketHead2.toBytes_length p.head,
        List.drop_left]

/-- What calls and closing leave alone: all that has to do with receiving. A connection that
was closed stays closed. -/
structure SameReading (h h' : AsyncProtocolHandler α κ) : Prop where
  mCloseCalled : h.mCloseCalled = true → h'.mCloseCalled = true
  mCurrentHead : h'.mCurrentHead = h.mCurrentHead
  mState : h'.mState = h.mState
  mOponentProtocolVer : h'.mOponentProtocolVer = h.mOponentProtocolVer
  timeouts : h'.timeouts = h.timeouts
  received : h'.past.received = h.past.received
  served : h'.past.served = h.past.served
  answered : h'.past.answered = h.past.answered
  strayed : h'.past.strayed = h.past.strayed

theorem SameReading.refl (h : AsyncProtocolHandler α κ) : h.SameReading h :=
  ⟨id, rfl, rfl, rfl, rfl, rfl, rfl, rfl, rfl⟩

/-- One step after another. -/
theorem SameReading.trans {h₁ h₂ h₃ : AsyncProtocolHandler α κ} (h₁₂ : h₁.SameReading h₂)
    (h₂₃ : h₂.SameReading h₃) : h₁.SameReading h₃ where
  mCloseCalled hclosed := h₂₃.mCloseCalled (h₁₂.mCloseCalled hclosed)
  mCurrentHead := h₂₃.mCurrentHead.trans h₁₂.mCurrentHead
  mState := h₂₃.mState.trans h₁₂.mState
  mOponentProtocolVer := h₂₃.mOponentProtocolVer.trans h₁₂.mOponentProtocolVer
  timeouts := h₂₃.timeouts.trans h₁₂.timeouts
  received := h₂₃.received.trans h₁₂.received
  served := h₂₃.served.trans h₁₂.served
  answered := h₂₃.answered.trans h₁₂.answered
  strayed := h₂₃.strayed.trans h₁₂.strayed

theorem closeUnwaited_sameReading (h : AsyncProtocolHandler α κ) :
    h.SameReading h.closeUnwaited := by
  unfold closeUnwaited
  simp only
  split <;> exact ⟨fun _ => rfl, rfl, rfl, rfl, rfl, rfl, rfl, rfl, rfl⟩

/-- An error that is handed to a callback, which may close. -/
theorem giveError_sameReading {close : AsyncProtocolHandler α κ → AsyncProtocolHandler α κ}
    (hclose : ∀ h, SameReading h (close h)) (h : AsyncProtocolHandler α κ) (cb : κ) (err : Int32) :
    h.SameReading (h.giveError g close cb err) := by
  have htold (context : α) : h.SameReading { h with
      mConnectionContext := context
      past := h.past.fail cb err } := ⟨id, rfl, rfl, rfl, rfl, rfl, rfl, rfl, rfl⟩
  unfold giveError
  simp only
  split
  · exact (htold _).trans (hclose _)
  · exact htold _

/-- A call that is given up. -/
theorem cancel_sameReading (h : AsyncProtocolHandler α κ) (handler : AnvokeHandler κ) :
    h.SameReading (h.cancel g handler) := by
  unfold cancel
  split
  · have htold := giveError_sameReading (g := g) closeUnwaited_sameReading h handler.mCb
      levinErrorConnectionDestroyed
    exact ⟨htold.mCloseCalled, htold.mCurrentHead, htold.mState, htold.mOponentProtocolVer,
      htold.timeouts, htold.received, htold.served, htold.answered, htold.strayed⟩
  · exact .refl h

/-- All calls are given up, one by one. -/
theorem shutdown_sameReading (h : AsyncProtocolHandler α κ) : h.SameReading (h.shutdown g) := by
  have hcancel : ∀ (handlers : List (AnvokeHandler κ)) (h : AsyncProtocolHandler α κ),
      h.SameReading (handlers.foldl (cancel g) h) := by
    intro handlers
    induction handlers with
    | nil => exact .refl
    | cons x xs ih => exact fun h => (cancel_sameReading h x).trans (ih _)
  have hrelease : h.SameReading { h with
      mPserviceEndpoint := { h.mPserviceEndpoint with mWasShutdown := true }
      mInvokeResponseHandlers := []
      mProtocolReleased := true } := ⟨id, rfl, rfl, rfl, rfl, rfl, rfl, rfl, rfl⟩
  exact hrelease.trans (hcancel h.mInvokeResponseHandlers _)

/-- A handler that closes its own connection. -/
theorem close_sameReading (h : AsyncProtocolHandler α κ) : h.SameReading (h.close g) := by
  have hwant : h.SameReading { h with
      mCloseCalled := true
      mPserviceEndpoint := { h.mPserviceEndpoint with mWantCloseConnection := true } } :=
    ⟨fun _ => rfl, rfl, rfl, rfl, rfl, rfl, rfl, rfl, rfl⟩
  unfold close closeConnection
  simp only
  split
  · exact hwant.trans (shutdown_sameReading _)
  · exact hwant

theorem sendPacket_sameReading (h : AsyncProtocolHandler α κ) (p : Packet) :
    h.SameReading (h.sendPacket p).2 := by
  unfold sendPacket
  split
  · exact ⟨id, rfl, rfl, rfl, rfl, rfl, rfl, rfl, rfl⟩
  · split <;> exact ⟨id, rfl, rfl, rfl, rfl, rfl, rfl, rfl, rfl⟩

theorem addInvokeResponseHandler_sameReading (h : AsyncProtocolHandler α κ) (cb : κ) :
    h.SameReading (h.addInvokeResponseHandler cb).2 := by
  unfold addInvokeResponseHandler
  split <;> exact ⟨id, rfl, rfl, rfl, rfl, rfl, rfl, rfl, rfl⟩

/-- A call that wants a response. -/
theorem asyncInvoke_sameReading (h : AsyncProtocolHandler α κ) (command : Int32)
    (inBuff : Sendable) (cb : κ) : h.SameReading (h.asyncInvoke g command inBuff cb) := by
  have hgive : h.SameReading { h with past := h.past.give cb } :=
    ⟨id, rfl, rfl, rfl, rfl, rfl, rfl, rfl, rfl⟩
  have hsend := hgive.trans (sendPacket_sameReading _ (requestPacket command inBuff true))
  unfold asyncInvoke
  simp only
  split
  · next h₁ hout =>
    rw [hout] at hsend
    exact hsend.trans (giveError_sameReading close_sameReading ..)
  · next h₁ hout =>
    rw [hout] at hsend
    have hissue : h₁.SameReading { h₁ with past := h₁.past.issue cb command inBuff.1 } :=
      ⟨id, rfl, rfl, rfl, rfl, rfl, rfl, rfl, rfl⟩
    have hadd := hsend.trans (hissue.trans (addInvokeResponseHandler_sameReading _ cb))
    split
    · next h₂ hout₂ =>
      rw [hout₂] at hadd
      exact hadd.trans (giveError_sameReading close_sameReading ..)
    · next h₂ hout₂ =>
      rw [hout₂] at hadd
      exact hadd

theorem call_sameReading (h : AsyncProtocolHandler α κ) (c : Call κ) :
    h.SameReading (h.call g c) := by
  cases c with
  | notify command inBuff => exact sendPacket_sameReading ..
  | asyncInvoke command inBuff cb => exact asyncInvoke_sameReading ..
  | close => exact close_sameReading h

theorem calls_sameReading (h : AsyncProtocolHandler α κ) (cs : List (Call κ)) :
    h.SameReading (h.calls g cs) := by
  induction cs generalizing h with
  | nil => exact .refl h
  | cons c cs ih => exact (call_sameReading h c).trans (ih (h.call g c))

theorem sendResponse_mCloseCalled (h : AsyncProtocolHandler α κ) (code : Int32) (buffOut : Blob) :
    (h.sendResponse code buffOut).2.mCloseCalled = h.mCloseCalled := by
  unfold sendResponse
  simp only
  split <;> rfl

/-- Receiving a body does not open a connection that was closed. -/
theorem onBody_mCloseCalled (hclosed : h.mCloseCalled = true) (buff : Blob) :
    (h.onBody g buff).2.mCloseCalled = true := by
  unfold onBody onResponse onRequest
  split
  · split
    · split
      · exact (calls_sameReading (g := g) _ _).mCloseCalled hclosed
      · exact hclosed
    · split <;> exact hclosed
  · split
    · rw [sendResponse_mCloseCalled]
      exact (calls_sameReading (g := g) _ _).mCloseCalled hclosed
    · exact (calls_sameReading (g := g) _ _).mCloseCalled hclosed

theorem sendResponse_received (h : AsyncProtocolHandler α κ) (code : Int32) (buffOut : Blob) :
    (h.sendResponse code buffOut).2.past.received = h.past.received := by
  unfold sendResponse
  simp only
  split <;> rfl

/-- Nor does it receive anything else. -/
theorem onBody_received (h : AsyncProtocolHandler α κ) (buff : Blob) :
    (h.onBody g buff).2.past.received = h.past.received := by
  unfold onBody onResponse onRequest
  split
  · split
    · split
      · exact (calls_sameReading (g := g) _ _).received
      · rfl
    · split <;> rfl
  · split
    · rw [sendResponse_received]
      exact (calls_sameReading (g := g) _ _).received
    · exact (calls_sameReading (g := g) _ _).received

theorem requestPacket_sound (command : Int32) (inBuff : Sendable) (wants : Bool) :
    (requestPacket command inBuff wants).Sound := by
  have hfits : inBuff.1.length < UInt64.size := Nat.lt_trans inBuff.2 (by decide)
  exact ⟨rfl, UInt64.toNat_ofNat_of_lt' hfits⟩

/-- At a head, the head of a packet is taken. -/
theorem turn_toBytes {p : Packet} (hstate : h.mState = .head) (hp : p.Sound)
    (hmax : p.body.length ≤ g.mMaxPacketSize) (more : Blob) :
    turn g h (p.head.toBytes ++ more) = .take (h.readHead p.head) more := by
  have hlen := BucketHead2.toBytes_length p.head
  have hfit : ¬ (p.head.toBytes ++ more).length < BucketHead2.size := by
    rw [List.length_append]
    omega
  have hcb : ¬ g.mMaxPacketSize < p.head.mCb.toNat := by
    rw [hp.measured]
    omega
  unfold turn
  simp only [hstate, if_neg hfit, BucketHead2.ofBytes_toBytes]
  rw [if_neg (not_not.2 hp.signed), if_neg hcb, ← hlen, List.drop_left]

/-- In one piece, whole packets are received one after another. -/
theorem drain_packets (hstate : h.mState = .head)
    (hps : ∀ p ∈ ps, p.Sound ∧ p.body.length ≤ g.mMaxPacketSize) {fuel : Nat}
    (hfuel : 2 * ps.length < fuel) : drain (turn g) fuel h (packetsToBytes ps) =
      deliver g ps h := by
  induction ps generalizing h fuel with
  | nil =>
    apply drain_wait
    unfold turn
    simp only [hstate]
    rfl
  | cons p ps ih =>
    obtain ⟨hp, hmax⟩ := hps p (List.mem_cons_self ..)
    rw [List.length_cons] at hfuel
    obtain ⟨fuel, rfl⟩ : ∃ k, fuel = k + 2 := ⟨fuel - 2, by omega⟩
    rw [packetsToBytes_cons, drain_take (turn_toBytes hstate hp hmax _)]
    have hturn := turn_body (g := g) (h := h) hp (packetsToBytes ps)
    unfold deliver
    generalize onBody g _ _ = out at hturn ⊢
    obtain ⟨ok, h₁⟩ := out
    cases ok with
    | false => exact drain_stop hturn _
    | true =>
      rw [drain_take hturn]
      exact ih rfl (fun q hq => hps q (List.mem_cons_of_mem _ hq)) (by omega)

/-- What is to come are whole packets that leave room for one more piece. -/
def Ready (g : Config α κ) (room : Nat) (future : Blob) (h : AsyncProtocolHandler α κ)
    (cache : Blob) : Prop :=
  ∃ ps, h.Awaits ps (cache ++ future) ∧
    ∀ p ∈ ps, p.Sound ∧ p.body.length + room ≤ g.mMaxPacketSize

/-- A turn uses up of the room what it takes off the cache. -/
theorem Ready.take {room : Nat} (hr : Ready g room future h cache)
    (ht : turn g h cache = .take h' rest) : Ready g room future h' rest := by
  obtain ⟨ps, ha, hps⟩ := hr
  rcases ha.take (fun p hp => (hps p hp).1) ht with
    ⟨p, -, rfl, ha'⟩ | ⟨p, ps', h₁, rfl, -, hbody, rfl, ha'⟩
  · exact ⟨ps, ha', hps⟩
  · exact ⟨ps', ha', fun q hq => hps q (List.mem_cons_of_mem _ hq)⟩

/-- What is kept while waiting is less than a head or a body. -/
theorem Ready.fits {room : Nat} (hr : Ready g room future h cache)
    (hroom : BucketHead2.size + room ≤ g.mMaxPacketSize) (hwait : turn g h cache = .wait)
    {piece : Blob} (hpiece : piece.length ≤ room) :
    cache.length + piece.length ≤ g.mMaxPacketSize := by
  obtain ⟨ps, ha, hps⟩ := hr
  unfold Awaits at ha
  unfold turn at hwait
  cases hstate : h.mState with
  | body =>
    simp only [hstate] at ha hwait
    obtain ⟨p, ps', rfl, hhead, -⟩ := ha
    obtain ⟨hp, hmax⟩ := hps p (List.mem_cons_self ..)
    split at hwait
    · next hlt =>
      rw [hhead, hp.measured] at hlt
      omega
    · split at hwait <;> cases hwait
  | head =>
    simp only [hstate] at hwait
    split at hwait
    · next hlt => omega
    · split at hwait
      · cases hwait
      · split at hwait <;> cases hwait

/-- A connection that was closed stays so in a turn, -/
theorem turn_mCloseCalled (hclosed : h.mCloseCalled = true)
    (ht : turn g h cache = .take h' rest) : h'.mCloseCalled = true := by
  rcases turn_take ht with ⟨-, -, -, h₁, hbody, rfl⟩ | ⟨-, -, -, -, -, rfl⟩
  · have hkept := onBody_mCloseCalled (g := g)
      (h := h.readBody (cache.take h.mCurrentHead.mCb.toNat)) hclosed
      (cache.take h.mCurrentHead.mCb.toNat)
    rw [hbody] at hkept
    exact hkept
  · exact hclosed

/-- and where a turn gives up. -/
theorem turn_stop_mCloseCalled (hclosed : h.mCloseCalled = true)
    (ht : turn g h cache = .stop h') : h'.mCloseCalled = true := by
  rcases turn_stop ht with ⟨-, -, hbody⟩ | ⟨-, rfl | ⟨head, rfl⟩⟩
  · have hkept := onBody_mCloseCalled (g := g)
      (h := h.readBody (cache.take h.mCurrentHead.mCb.toNat)) hclosed
      (cache.take h.mCurrentHead.mCb.toNat)
    rw [hbody] at hkept
    exact hkept
  · exact hclosed
  · exact hclosed

/-- Nor does reading more. -/
theorem feed_mCloseCalled (hclosed : h.mCloseCalled = true) (piece : Blob) :
    (feed (turn g) cost (.waiting h cache) piece).state.mCloseCalled = true := by
  have hall : Holds (fun h _ => h.mCloseCalled = true) (fun h => h.mCloseCalled = true)
      (feed (turn g) cost (.waiting h cache) piece) :=
    drain_keeps (fun _ _ _ _ => turn_mCloseCalled) (fun _ _ _ => turn_stop_mCloseCalled) hclosed
  generalize feed (turn g) cost (.waiting h cache) piece = r at hall ⊢
  cases r <;> exact hall

/-- Pieces that leave room are read as if they came in one, if nobody closes meanwhile. -/
theorem foldl_handleRecv {room : Nat} (hroom : BucketHead2.size + room ≤ g.mMaxPacketSize)
    {pieces : List Blob} (hpieces : ∀ piece ∈ pieces, piece.length ≤ room)
    {r : Reader (AsyncProtocolHandler α κ) UInt8} (hsettled : Settled (turn g) r)
    (hr : Holds (Ready g room (pieces.flatten ++ future)) (fun _ => True) r)
    (hopen : (feed (turn g) cost r pieces.flatten).state.mCloseCalled = false) :
    pieces.foldl (handleRecv g) r = feed (turn g) cost r pieces.flatten := by
  induction pieces generalizing r with
  | nil => exact (feed_nil hsettled).symm
  | cons piece pieces ih =>
    have hpiece := hpieces piece (List.mem_cons_self ..)
    have hstep : handleRecv g r piece = feed (turn g) cost r piece := by
      cases r with
      | stopped h => rfl
      | waiting h cache =>
        -- closed by now would be closed in the end
        have hclose : ¬ h.mCloseCalled = true := by
          intro hclosed
          rw [feed_mCloseCalled hclosed] at hopen
          cases hopen
        have hfits : ¬ g.mMaxPacketSize < cache.length + piece.length :=
          Nat.not_lt.2 (hr.fits hroom hsettled hpiece)
        show (if h.mCloseCalled = true then _ else if _ then _ else _) = _
        rw [if_neg hclose, if_neg hfits]
    have hnext : Holds (Ready g room (pieces.flatten ++ future)) (fun _ => True)
        (feed (turn g) cost r piece) := by
      cases r with
      | stopped h => trivial
      | waiting h cache =>
        apply drain_keeps (fun _ _ _ _ hI ht => hI.take ht) (fun _ _ _ _ _ => trivial)
        have hassoc : cache ++ ((piece :: pieces).flatten ++ future) =
            cache ++ piece ++ (pieces.flatten ++ future) := by
          rw [List.flatten_cons]
          simp only [List.append_assoc]
        obtain ⟨ps, ha, hps⟩ := hr
        rw [hassoc] at ha
        exact ⟨ps, ha, hps⟩
    have hcut := feed_feed (turn_steady g) r piece pieces.flatten
    rw [List.flatten_cons, ← hcut] at hopen ⊢
    rw [List.foldl_cons, hstep]
    exact ih (fun q hq => hpieces q (List.mem_cons_of_mem _ hq))
      (feed_settled (turn_steady g) piece) hnext hopen

/-- **However the network cuts a stream of packets, they are received whole and in the order
in which they were sent, as long as their handlers leave the connection open.** -/
theorem handleRecv_packets (hstate : h.mState = .head)
    (hopen : (deliver g ps h).state.mCloseCalled = false) {room : Nat}
    (hroom : BucketHead2.size + room ≤ g.mMaxPacketSize)
    (hps : ∀ p ∈ ps, p.Sound ∧ p.body.length + room ≤ g.mMaxPacketSize) {pieces : List Blob}
    (hpieces : ∀ piece ∈ pieces, piece.length ≤ room)
    (hcut : pieces.flatten = packetsToBytes ps) :
    pieces.foldl (handleRecv g) (.waiting h []) = deliver g ps h := by
  have hwait : turn g h [] = .wait := by
    unfold turn
    simp only [hstate]
    rfl
  have hready : Ready g room (pieces.flatten ++ []) h [] := by
    refine ⟨ps, ?_, hps⟩
    unfold Awaits
    simp only [hstate]
    rw [List.append_nil, List.nil_append, hcut]
  have hsize : BucketHead2.size = 33 := rfl
  have hwhole : feed (turn g) cost (.waiting h []) pieces.flatten = deliver g ps h := by
    rw [hcut]
    refine drain_packets hstate (fun p hp => ?_) ?_
    · obtain ⟨hsound, hmax⟩ := hps p hp
      exact ⟨hsound, by omega⟩
    · have hlen := length_le_packetsToBytes ps
      unfold cost
      simp only [hstate, List.nil_append]
      omega
  rw [foldl_handleRecv hroom hpieces (r := .waiting h []) hwait hready (hwhole ▸ hopen), hwhole]

end AsyncProtocolHandler

/-! ### An echo -/

namespace Echo

/-- It notes what it gets, and sends the front of a request back. -/
def commandsHandler : LevinCommandsHandler (List Blob) Nat where
  invoke _ inBuff log := ⟨1, (inBuff.take 64).reverse, log ++ [inBuff], []⟩
  notify _ inBuff log := (log ++ [inBuff], [])
  callback _ _ buff log := (log ++ [buff], [])
  callbackFailed _ _ log := (log, false)
  invoke_fits _ inBuff _ := by
    rw [List.length_reverse]
    exact Nat.lt_of_le_of_lt (List.length_take_le _ _) (by decide)

/-- The limit is that of the node. -/
def config : Config (List Blob) Nat := ⟨commandsHandler, 50000000⟩

/-- What a party says. -/
def longBody : Sendable := ⟨[1, 2, 3], by decide⟩

/-- A body of one byte. -/
def shortBody : Sendable := ⟨[4], by decide⟩

/-- A request and a notification. -/
def packets : List Packet :=
  [AsyncProtocolHandler.requestPacket 1001 longBody true,
    AsyncProtocolHandler.requestPacket 1002 shortBody false]

theorem packets_sound : ∀ p ∈ packets, p.Sound ∧ p.body.length + 1 ≤ config.mMaxPacketSize := by
  intro p hp
  rcases List.mem_cons.1 hp with rfl | hp
  · exact ⟨AsyncProtocolHandler.requestPacket_sound .., by decide⟩
  · rw [List.mem_singleton.1 hp]
    exact ⟨AsyncProtocolHandler.requestPacket_sound .., by decide⟩

end Echo

/-- Two packets that come byte by byte. -/
theorem handleRecv_packets_bytewise :
    ((packetsToBytes Echo.packets).map fun b => [b]).foldl
      (AsyncProtocolHandler.handleRecv Echo.config) (.waiting (.start []) []) =
        AsyncProtocolHandler.deliver Echo.config Echo.packets (.start []) :=
  AsyncProtocolHandler.handleRecv_packets rfl (by decide)
    (by decide : BucketHead2.size + 1 ≤ 50000000)
    Echo.packets_sound
    (fun piece hpiece => by
      obtain ⟨b, -, rfl⟩ := List.mem_map.1 hpiece
      exact Nat.le_refl 1)
    (by rw [← List.flatMap_def, List.flatMap_singleton'])

end DarknetSpace.Levin
