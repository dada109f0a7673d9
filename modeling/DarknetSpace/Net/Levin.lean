import DarknetSpace.Lib.Framing
import DarknetSpace.Format.Archive

/-!
# The Levin transport (`levin_base.h`, `levin_protocol_handler_async.h`)

A packet is a packed head and a body. What a connection reads comes in pieces of
any size; `handle_recv` keeps what it cannot use yet in a cache and goes from
head to body and back. A request is handed to the commands handler, and what it
returns is sent back; a response goes to the callback that has waited longest.

`BucketHead2` is the head with its bytes, `Connection` the service endpoint
(`abstract_tcp_server2.inl`) with its send queue, `AsyncProtocolHandler` the
handler of one connection. The commands handler and the callbacks are parameters:
functions of the context of the connection that return the new context and what
they ask of the connection, a `Call` each, which is done when they have returned.
They may close their own connection, as `drop_connection` does. A callback that is
given an error sends nothing, so all it may do to the connection is close it: the
callbacks of `net_node.inl` are like that, and one that invoked again could be
given an error again without end.

The callbacks of a connection are told apart by their names, `κ`, and `Past` keeps
what has gone through it: no code reads it.
-/

namespace DarknetSpace.Levin

open Framing

/-- `LEVIN_SIGNATURE`, the first eight bytes of a head. -/
def levinSignature : UInt64 := 0x0101010101012101

/-- `LEVIN_PACKET_REQUEST` -/
def levinPacketRequest : UInt32 := 0x00000001

/-- `LEVIN_PACKET_RESPONSE` -/
def levinPacketResponse : UInt32 := 0x00000002

/-- `LEVIN_PROTOCOL_VER_1` -/
def levinProtocolVer1 : UInt32 := 1

/-- `LEVIN_ERROR_CONNECTION` -/
def levinErrorConnection : Int32 := -1

/-- `LEVIN_ERROR_CONNECTION_DESTROYED` -/
def levinErrorConnectionDestroyed : Int32 := -3

/-- `LEVIN_ERROR_CONNECTION_TIMEDOUT` -/
def levinErrorConnectionTimedout : Int32 := -4

/-! ## Heads -/

/-- `bucket_head2`. -/
structure BucketHead2 where
  mSignature : UInt64
  mCb : UInt64
  mHaveToReturnData : Bool
  mCommand : UInt32
  mReturnCode : Int32
  mFlags : UInt32
  mProtocolVersion : UInt32
  deriving DecidableEq

/-- The `n` bytes from `i` on as a number. -/
def fieldAt (s : Blob) (i n : Nat) : Nat := podOfBytes ((s.drop i).take n)

namespace BucketHead2

/-- `sizeof(bucket_head2)`, packed. -/
def size : Nat := 33

/-- A head as it lies in memory, without padding. -/
def toBytes (head : BucketHead2) : Blob :=
  bytesOfPod 8 head.mSignature.toNat ++ (bytesOfPod 8 head.mCb.toNat ++
  (bytesOfPod 1 head.mHaveToReturnData.toNat ++ (bytesOfPod 4 head.mCommand.toNat ++
  (bytesOfPod 4 head.mReturnCode.toUInt32.toNat ++ (bytesOfPod 4 head.mFlags.toNat ++
  bytesOfPod 4 head.mProtocolVersion.toNat)))))

/-- The bytes taken for a head; any byte but zero stands for `true`. -/
def ofBytes (s : Blob) : BucketHead2 where
  mSignature := UInt64.ofNat (fieldAt s 0 8)
  mCb := UInt64.ofNat (fieldAt s 8 8)
  mHaveToReturnData := fieldAt s 16 1 != 0
  mCommand := UInt32.ofNat (fieldAt s 17 4)
  mReturnCode := (UInt32.ofNat (fieldAt s 21 4)).toInt32
  mFlags := UInt32.ofNat (fieldAt s 25 4)
  mProtocolVersion := UInt32.ofNat (fieldAt s 29 4)

theorem toBytes_length (head : BucketHead2) : head.toBytes.length = size := by
  unfold toBytes
  simp only [List.length_append, bytesOfPod_length]
  rfl

end BucketHead2

theorem fieldAt_front {n v : Nat} (hv : v < 256 ^ n) (s : Blob) :
    fieldAt (bytesOfPod n v ++ s) 0 n = v := by
  unfold fieldAt
  rw [List.drop_zero, List.take_left' (bytesOfPod_length n v), podOfBytes_bytesOfPod hv]

theorem fieldAt_skip {i k : Nat} (j v : Nat) (hi : i = k + j) (s : Blob) (n : Nat) :
    fieldAt (bytesOfPod k v ++ s) i n = fieldAt s j n := by
  have hlen := bytesOfPod_length k v
  unfold fieldAt
  rw [hi, List.drop_append, hlen, Nat.add_sub_cancel_left, List.drop_eq_nil_of_le (by omega),
    List.nil_append]

/-- A field within `s` is not changed by what follows. -/
theorem fieldAt_append {s : Blob} {i n : Nat} (h : i + n ≤ s.length) (more : Blob) :
    fieldAt (s ++ more) i n = fieldAt s i n := by
  unfold fieldAt
  rw [List.drop_append_of_le_length (by omega),
    List.take_append_of_le_length (by rw [List.length_drop]; omega)]

namespace BucketHead2

/-- A head is read back from its bytes. -/
theorem ofBytes_toBytes (head : BucketHead2) (s : Blob) : ofBytes (head.toBytes ++ s) = head := by
  have hsign : head.mSignature.toNat < 256 ^ 8 := head.mSignature.toNat_lt
  have hcb : head.mCb.toNat < 256 ^ 8 := head.mCb.toNat_lt
  have hret : head.mHaveToReturnData.toNat < 256 ^ 1 := by
    cases head.mHaveToReturnData <;> decide
  have hcommand : head.mCommand.toNat < 256 ^ 4 := head.mCommand.toNat_lt
  have hcode : head.mReturnCode.toUInt32.toNat < 256 ^ 4 := head.mReturnCode.toUInt32.toNat_lt
  have hflags : head.mFlags.toNat < 256 ^ 4 := head.mFlags.toNat_lt
  have hversion : head.mProtocolVersion.toNat < 256 ^ 4 := head.mProtocolVersion.toNat_lt
  unfold ofBytes toBytes
  simp only [List.append_assoc]
  -- each field is in front once those before it are skipped
  rw [fieldAt_front hsign, fieldAt_skip 0 _ rfl, fieldAt_front hcb, fieldAt_skip 8 _ rfl,
    fieldAt_skip 0 _ rfl, fieldAt_front hret, fieldAt_skip 9 _ rfl, fieldAt_skip 1 _ rfl,
    fieldAt_skip 0 _ rfl, fieldAt_front hcommand, fieldAt_skip 13 _ rfl, fieldAt_skip 5 _ rfl,
    fieldAt_skip 4 _ rfl, fieldAt_skip 0 _ rfl, fieldAt_front hcode, fieldAt_skip 17 _ rfl,
    fieldAt_skip 9 _ rfl, fieldAt_skip 8 _ rfl, fieldAt_skip 4 _ rfl, fieldAt_skip 0 _ rfl,
    fieldAt_front hflags, fieldAt_skip 21 _ rfl, fieldAt_skip 13 _ rfl, fieldAt_skip 12 _ rfl,
    fieldAt_skip 8 _ rfl, fieldAt_skip 4 _ rfl, fieldAt_skip 0 _ rfl, fieldAt_front hversion]
  have hbool : (head.mHaveToReturnData.toNat != 0) = head.mHaveToReturnData := by
    cases head.mHaveToReturnData <;> rfl
  rw [UInt64.ofNat_toNat, UInt64.ofNat_toNat, UInt32.ofNat_toNat, UInt32.ofNat_toNat,
    UInt32.ofNat_toNat, UInt32.ofNat_toNat, hbool]
  rfl

/-- A head is read off its own bytes. -/
theorem ofBytes_append {s : Blob} (h : size ≤ s.length) (more : Blob) :
    ofBytes (s ++ more) = ofBytes s := by
  have hsize : 33 ≤ s.length := h
  unfold ofBytes
  rw [fieldAt_append (by omega), fieldAt_append (by omega), fieldAt_append (by omega),
    fieldAt_append (by omega), fieldAt_append (by omega), fieldAt_append (by omega),
    fieldAt_append (by omega)]

end BucketHead2

/-- A head and a body of the size that the head names. -/
structure Packet where
  head : BucketHead2
  body : Blob

/-- A packet as `handle_recv` takes it: its head is signed and tells the size of its body. -/
structure Packet.Sound (p : Packet) : Prop where
  signed : p.head.mSignature = levinSignature
  measured : p.head.mCb.toNat = p.body.length

/-- A packet on the wire. -/
def Packet.toBytes (p : Packet) : Blob := p.head.toBytes ++ p.body

/-- Packets on the wire, one behind the other. -/
def packetsToBytes (ps : List Packet) : Blob := ps.flatMap Packet.toBytes

/-! ## The connection -/

/-- What the service endpoint keeps. -/
structure Connection where
  mSendQue : List Blob
  mWantCloseConnection : Bool
  mWasShutdown : Bool

/-- `ABSTRACT_SERVER_SEND_QUE_MAX_COUNT`. -/
def abstractServerSendQueMaxCount : Nat := 100

/-- `connection::do_send`. Its `close` finds the queue full, so it shuts nothing down. -/
def Connection.doSend (c : Connection) (data : Blob) : Bool × Connection :=
  if c.mWasShutdown then (false, c)
  else if abstractServerSendQueMaxCount ≤ c.mSendQue.length then
    (false, { c with mWantCloseConnection := true })
  else (true, { c with mSendQue := c.mSendQue ++ [data] })

/-! ## The protocol handler -/

/-- What comes next on the stream: a head, or the body of the last one. -/
inductive StreamState where
  | head
  | body
  deriving DecidableEq

/-- `anvoke_handler`. `waiting` says that its timer has not gone off. -/
structure AnvokeHandler (κ : Type) where
  mCb : κ
  waiting : Bool
  mCancelTimerCalled : Bool
  mTimerCancelled : Bool

/-- `cancel_timer`: the timer is asked once. -/
def AnvokeHandler.cancelTimer {κ : Type} (h : AnvokeHandler κ) : Bool × AnvokeHandler κ :=
  if h.mCancelTimerCalled then (h.mTimerCancelled, h)
  else (h.waiting, { h with waiting := false, mCancelTimerCalled := true, mTimerCancelled := h.waiting })

/-- A string whose length fits an `int`: `do_send` is given its size through one. -/
abbrev Sendable := { b : Blob // b.length < 2 ^ 31 }

/-- What a party may ask of a connection. -/
inductive Call (κ : Type) where
  | notify (command : Int32) (inBuff : Sendable)
  | asyncInvoke (command : Int32) (inBuff : Sendable) (cb : κ)
  | close

/-- What a command gives back: a code, an answer, the context, and the calls it has made. -/
structure Reply (α κ : Type) where
  code : Int32
  buffOut : Blob
  context : α
  calls : List (Call κ)

/-- `levin_commands_handler`, with the callbacks: what they do to the context `α` of the
connection, and what they ask of it. -/
structure LevinCommandsHandler (α κ : Type) where
  invoke : (command : Int32) → (inBuff : Blob) → α → Reply α κ
  notify : (command : Int32) → (inBuff : Blob) → α → α × List (Call κ)
  /-- a callback with its response -/
  callback : κ → (res : Int32) → (buff : Blob) → α → α × List (Call κ)
  /-- a callback with an error, and whether it closes the connection -/
  callbackFailed : κ → (err : Int32) → α → α × Bool
  /-- A size is a `uint64_t`. -/
  invoke_fits : ∀ command inBuff context,
    (invoke command inBuff context).buffOut.length < 2 ^ 64

/-- A request with its callback. -/
structure Issued (κ : Type) where
  cb : κ
  command : Int32
  inBuff : Blob

/-- A request and what was returned. -/
structure Served where
  command : Int32
  inBuff : Blob
  buffOut : Blob

/-- What has gone through a connection. -/
structure Past (κ : Type) where
  /-- the callbacks that came with a request -/
  given : List κ
  issued : List (Issued κ)
  sent : List Packet
  received : List Packet
  served : List Served
  /-- the callbacks that were given a response -/
  answered : List (κ × Int32 × Blob)
  /-- the callbacks that were given an error -/
  failed : List (κ × Int32)
  /-- a head went into the queue and its body did not -/
  torn : Bool
  /-- a response came for which no callback was left, and the connection was not shut down -/
  strayed : Bool

namespace Past

variable {κ : Type} (past : Past κ)

/-- `cb` is handed over with a call. -/
def give (cb : κ) : Past κ := { past with given := past.given ++ [cb] }

/-- The call has been written, and waits for its response. -/
def issue (cb : κ) (command : Int32) (inBuff : Blob) : Past κ :=
  { past with issued := past.issued ++ [⟨cb, command, inBuff⟩] }

/-- A packet has been put on the queue. -/
def send (p : Packet) : Past κ := { past with sent := past.sent ++ [p] }

/-- A packet has come in whole. -/
def receive (p : Packet) : Past κ := { past with received := past.received ++ [p] }

/-- A request has been answered. -/
def serve (command : Int32) (inBuff buffOut : Blob) : Past κ :=
  { past with served := past.served ++ [⟨command, inBuff, buffOut⟩] }

/-- A callback has been called with a response. -/
def answer (cb : κ) (res : Int32) (buff : Blob) : Past κ :=
  { past with answered := past.answered ++ [(cb, res, buff)] }

/-- A callback has been called with an error. -/
def fail (cb : κ) (err : Int32) : Past κ := { past with failed := past.failed ++ [(cb, err)] }

/-- A packet has been put on the queue without its end. -/
def tear : Past κ := { past with torn := true }

/-- A response has come for a call that is over. -/
def stray (released : Bool) : Past κ := { past with strayed := past.strayed || !released }

end Past

/-- `async_protocol_handler`, with its connection and with what has happened so far. -/
structure AsyncProtocolHandler (α κ : Type) where
  mPserviceEndpoint : Connection
  mConnectionContext : α
  mCloseCalled : Bool
  mWaitCount : Nat
  mProtocolReleased : Bool
  mCurrentHead : BucketHead2
  mState : StreamState
  mOponentProtocolVer : UInt32
  mInvokeResponseHandlers : List (AnvokeHandler κ)
  /-- timers that have gone off, their handler not run yet -/
  timeouts : List κ
  mInvokeBufReady : Bool
  mLocalInvBuff : Blob
  mInvokeResultCode : Int32
  past : Past κ

/-- Before anything happens. -/
def AsyncProtocolHandler.start {α κ : Type} (context : α) : AsyncProtocolHandler α κ where
  mPserviceEndpoint := ⟨[], false, false⟩
  mConnectionContext := context
  mCloseCalled := false
  mWaitCount := 0
  mProtocolReleased := false
  mCurrentHead := ⟨0, 0, false, 0, 0, 0, 0⟩
  mState := .head
  mOponentProtocolVer := 0
  mInvokeResponseHandlers := []
  timeouts := []
  mInvokeBufReady := false
  mLocalInvBuff := []
  mInvokeResultCode := 0
  past := ⟨[], [], [], [], [], [], [], false, false⟩

/-- The handler and what `m_config` gives it. -/
structure Config (α κ : Type) where
  mPcommandsHandler : LevinCommandsHandler α κ
  mMaxPacketSize : Nat

namespace AsyncProtocolHandler

variable {α κ : Type} (g : Config α κ)

/-! ### Closing -/

/-- A callback is given an error; `close` is called if it wants to close the connection. -/
def giveError (close : AsyncProtocolHandler α κ → AsyncProtocolHandler α κ)
    (h : AsyncProtocolHandler α κ) (cb : κ) (err : Int32) : AsyncProtocolHandler α κ :=
  let r := g.mPcommandsHandler.callbackFailed cb err h.mConnectionContext
  let h := { h with
    mConnectionContext := r.1
    past := h.past.fail cb err }
  if r.2 then close h else h

/-- `close` when no handler waits for a response (`close_of_nil`). -/
def closeUnwaited (h : AsyncProtocolHandler α κ) : AsyncProtocolHandler α κ :=
  let h := { h with
    mCloseCalled := true
    mPserviceEndpoint := { h.mPserviceEndpoint with mWantCloseConnection := true } }
  if h.mPserviceEndpoint.mSendQue.isEmpty then
    { h with
      mPserviceEndpoint := { h.mPserviceEndpoint with mWasShutdown := true }
      mProtocolReleased := true }
  else h

/-- `anvoke_handler::cancel`: `release_protocol` has emptied the list before. -/
def cancel (h : AsyncProtocolHandler α κ) (handler : AnvokeHandler κ) : AsyncProtocolHandler α κ :=
  if handler.cancelTimer.1 then
    let h := h.giveError g closeUnwaited handler.mCb levinErrorConnectionDestroyed
    { h with mWaitCount := h.mWaitCount - 1 }
  else h

/-- `release_protocol`. -/
def releaseProtocol (h : AsyncProtocolHandler α κ) : AsyncProtocolHandler α κ :=
  h.mInvokeResponseHandlers.foldl (cancel g)
    { h with mInvokeResponseHandlers := [], mProtocolReleased := true }

/-- `connection::shutdown`. -/
def shutdown (h : AsyncProtocolHandler α κ) : AsyncProtocolHandler α κ :=
  releaseProtocol g
    { h with mPserviceEndpoint := { h.mPserviceEndpoint with mWasShutdown := true } }

/-- `connection::close`. -/
def closeConnection (h : AsyncProtocolHandler α κ) : AsyncProtocolHandler α κ :=
  let h :=
    { h with mPserviceEndpoint := { h.mPserviceEndpoint with mWantCloseConnection := true } }
  if h.mPserviceEndpoint.mSendQue.isEmpty then h.shutdown g else h

/-- `close`. -/
def close (h : AsyncProtocolHandler α κ) : AsyncProtocolHandler α κ :=
  closeConnection g { h with mCloseCalled := true }

/-- With no call that waits, closing only shuts the connection. -/
theorem close_of_nil {h : AsyncProtocolHandler α κ} (hnil : h.mInvokeResponseHandlers = []) :
    h.close g = h.closeUnwaited := by
  unfold close closeConnection closeUnwaited
  simp only
  split
  · unfold shutdown releaseProtocol
    simp only [hnil, List.foldl_nil]
  · rfl

/-- `handle_write`: the first entry of the queue is written. -/
def handleWrite (h : AsyncProtocolHandler α κ) : AsyncProtocolHandler α κ :=
  let h := { h with
    mPserviceEndpoint := { h.mPserviceEndpoint with mSendQue := h.mPserviceEndpoint.mSendQue.tail } }
  if h.mPserviceEndpoint.mSendQue.isEmpty ∧ h.mPserviceEndpoint.mWantCloseConnection then
    h.shutdown g
  else h

/-- A timer goes off; what it calls is put in line. -/
def timerFires (h : AsyncProtocolHandler α κ) (i : Nat) : Option (AsyncProtocolHandler α κ) := do
  let x ← h.mInvokeResponseHandlers[i]?
  if x.waiting then
    some { h with
      mInvokeResponseHandlers := h.mInvokeResponseHandlers.set i { x with waiting := false }
      timeouts := h.timeouts ++ [x.mCb] }
  else none

/-- What a timer calls: the callback is told, and the connection closed. -/
def timeout (h : AsyncProtocolHandler α κ) (i : Nat) : Option (AsyncProtocolHandler α κ) := do
  let cb ← h.timeouts[i]?
  let h := { h with timeouts := h.timeouts.eraseIdx i }
  let h := (h.giveError g (close g) cb levinErrorConnectionTimedout).close g
  some { h with mWaitCount := h.mWaitCount - 1 }

/-! ### Sending -/

/-- The head of what a party sends of itself. -/
def requestHead (command : Int32) (inBuff : Sendable) (haveToReturnData : Bool) : BucketHead2 where
  mSignature := levinSignature
  mCb := UInt64.ofNat inBuff.1.length
  mHaveToReturnData := haveToReturnData
  mCommand := command.toUInt32
  mReturnCode := 0
  mFlags := levinPacketRequest
  mProtocolVersion := levinProtocolVer1

/-- The packet of `invoke` and `notify`. -/
def requestPacket (command : Int32) (inBuff : Sendable) (haveToReturnData : Bool) : Packet where
  head := requestHead command inBuff haveToReturnData
  body := inBuff.1

/-- Head and body, each with a `do_send`; and whether both went into the queue. -/
def sendPacket (h : AsyncProtocolHandler α κ) (p : Packet) : Bool × AsyncProtocolHandler α κ :=
  match h.mPserviceEndpoint.doSend p.head.toBytes with
  | (false, c) => (false, { h with mPserviceEndpoint := c })
  | (true, c) =>
    match c.doSend p.body with
    | (false, c') =>
      (false, { h with mPserviceEndpoint := c', past := h.past.tear })
    | (true, c') =>
      (true, { h with
        mPserviceEndpoint := c'
        past := h.past.send p })

/-- `add_invoke_response_handler`: the timer starts unless the connection was shut down. -/
def addInvokeResponseHandler (h : AsyncProtocolHandler α κ) (cb : κ) :
    Bool × AsyncProtocolHandler α κ :=
  if h.mPserviceEndpoint.mWasShutdown then
    (false, { h with
      mInvokeResponseHandlers := h.mInvokeResponseHandlers ++ [⟨cb, false, false, false⟩] })
  else
    (true, { h with
      mWaitCount := h.mWaitCount + 1
      mInvokeResponseHandlers := h.mInvokeResponseHandlers ++ [⟨cb, true, false, false⟩] })

/-- `async_invoke`. -/
def asyncInvoke (h : AsyncProtocolHandler α κ) (command : Int32) (inBuff : Sendable) (cb : κ) :
    AsyncProtocolHandler α κ :=
  let h := { h with past := h.past.give cb }
  match h.sendPacket (requestPacket command inBuff true) with
  | (false, h) => h.giveError g (close g) cb levinErrorConnection
  | (true, h) =>
    let h := { h with past := h.past.issue cb command inBuff.1 }
    match h.addInvokeResponseHandler cb with
    | (false, h) => h.giveError g (close g) cb levinErrorConnectionDestroyed
    | (true, h) => h

/-- `notify`. -/
def notify (h : AsyncProtocolHandler α κ) (command : Int32) (inBuff : Sendable) :
    AsyncProtocolHandler α κ :=
  (h.sendPacket (requestPacket command inBuff false)).2

/-- One call of a handler or a callback. -/
def call (h : AsyncProtocolHandler α κ) : Call κ → AsyncProtocolHandler α κ
  | .notify command inBuff => h.notify command inBuff
  | .asyncInvoke command inBuff cb => h.asyncInvoke g command inBuff cb
  | .close => h.close g

/-- The calls of a handler, in order. -/
def calls (h : AsyncProtocolHandler α κ) (cs : List (Call κ)) : AsyncProtocolHandler α κ :=
  cs.foldl (call g) h

/-! ### Receiving -/

/-- A response: to the first callback, unless its timer has gone off; with no callback
left, to an `invoke` that waits. -/
def onResponse (h : AsyncProtocolHandler α κ) (buff : Blob) : Bool × AsyncProtocolHandler α κ :=
  match h.mInvokeResponseHandlers with
  | handler :: handlers =>
    match handler.cancelTimer with
    | (true, _) =>
      let res := h.mCurrentHead.mCommand.toInt32
      let r := g.mPcommandsHandler.callback handler.mCb res buff h.mConnectionContext
      let h := { h with
        mInvokeResponseHandlers := handlers
        mConnectionContext := r.1
        past := h.past.answer handler.mCb res buff }
      let h := h.calls g r.2
      (true, { h with mWaitCount := h.mWaitCount - 1 })
    | (false, handler') => (true, { h with mInvokeResponseHandlers := handler' :: handlers })
  | [] =>
    if h.mWaitCount = 0 ∧ ¬ h.mCloseCalled then (false, h)
    else
      (true, { h with
        mLocalInvBuff := buff
        mInvokeResultCode := h.mCurrentHead.mReturnCode
        mInvokeBufReady := true
        past := h.past.stray h.mProtocolReleased })

/-- The head of what is sent back: that of the request, changed. -/
def responseHead (head : BucketHead2) (code : Int32) (buffOut : Blob) : BucketHead2 :=
  { head with
    mReturnCode := code
    mCb := UInt64.ofNat buffOut.length
    mHaveToReturnData := false
    mProtocolVersion := levinProtocolVer1
    mFlags := levinPacketResponse }

/-- What was returned is sent: head and body go into the queue together. -/
def sendResponse (h : AsyncProtocolHandler α κ) (code : Int32) (buffOut : Blob) :
    Bool × AsyncProtocolHandler α κ :=
  let head := responseHead h.mCurrentHead code buffOut
  match h.mPserviceEndpoint.doSend (head.toBytes ++ buffOut) with
  | (false, c) => (false, { h with mPserviceEndpoint := c, mCurrentHead := head })
  | (true, c) =>
    (true, { h with
      mPserviceEndpoint := c
      mCurrentHead := head
      past := h.past.send ⟨head, buffOut⟩ })

/-- A request that wants something back. -/
def onRequest (h : AsyncProtocolHandler α κ) (buff : Blob) : Bool × AsyncProtocolHandler α κ :=
  let command := h.mCurrentHead.mCommand.toInt32
  let r := g.mPcommandsHandler.invoke command buff h.mConnectionContext
  let h := { h with
    mConnectionContext := r.context
    past := h.past.serve command buff r.buffOut }
  (h.calls g r.calls).sendResponse r.code r.buffOut

/-- `is_response`. -/
def isResponse (ver : UInt32) (head : BucketHead2) : Bool :=
  ver == levinProtocolVer1 && head.mFlags &&& levinPacketResponse != 0

/-- A body has come whole. -/
def onBody (h : AsyncProtocolHandler α κ) (buff : Blob) : Bool × AsyncProtocolHandler α κ :=
  if isResponse h.mOponentProtocolVer h.mCurrentHead then h.onResponse g buff
  else if h.mCurrentHead.mHaveToReturnData then h.onRequest g buff
  else
    let r := g.mPcommandsHandler.notify h.mCurrentHead.mCommand.toInt32 buff h.mConnectionContext
    (true, { h with mConnectionContext := r.1 }.calls g r.2)

/-- The head is received. -/
def readHead (h : AsyncProtocolHandler α κ) (head : BucketHead2) : AsyncProtocolHandler α κ :=
  { h with mCurrentHead := head, mState := .body, mOponentProtocolVer := head.mProtocolVersion }

/-- The body is received. -/
def readBody (h : AsyncProtocolHandler α κ) (body : Blob) : AsyncProtocolHandler α κ :=
  { h with past := h.past.receive ⟨h.mCurrentHead, body⟩ }

/-- Ready for the next head. -/
def readyForHead (h : AsyncProtocolHandler α κ) : AsyncProtocolHandler α κ :=
  { h with mState := .head }

/-- One turn of the loop of `handle_recv`, with the cache it works on. -/
def turn (h : AsyncProtocolHandler α κ) (cache : Blob) : Next (AsyncProtocolHandler α κ) UInt8 :=
  match h.mState with
  | .body =>
    let cb := h.mCurrentHead.mCb.toNat
    if cache.length < cb then .wait
    else
      match (h.readBody (cache.take cb)).onBody g (cache.take cb) with
      | (false, h) => .stop h
      | (true, h) => .take h.readyForHead (cache.drop cb)
  | .head =>
    if cache.length < BucketHead2.size then
      -- a wrong signature is not waited for
      if 8 ≤ cache.length ∧ fieldAt cache 0 8 ≠ levinSignature.toNat then .stop h else .wait
    else
      let head := BucketHead2.ofBytes cache
      if head.mSignature ≠ levinSignature then .stop h
      else if g.mMaxPacketSize < head.mCb.toNat then .stop (h.readHead head)
      else .take (h.readHead head) (cache.drop BucketHead2.size)

/-- The turns a cache allows, at most. -/
def cost (h : AsyncProtocolHandler α κ) (cache : Blob) : Nat :=
  match h.mState with
  | .body => 2 * cache.length + 1
  | .head => 2 * cache.length

/-- `handle_recv`: a connection that is `stopped` reads no more. -/
def handleRecv :
    Reader (AsyncProtocolHandler α κ) UInt8 → Blob → Reader (AsyncProtocolHandler α κ) UInt8
  | .stopped h, _ => .stopped h
  | .waiting h cache, data =>
    if h.mCloseCalled then .stopped h
    else if g.mMaxPacketSize < cache.length + data.length then .stopped h
    else feed (turn g) cost (.waiting h cache) data

/-- Packets received one after another, as if each came in a piece of its own. -/
def deliver :
    List Packet → AsyncProtocolHandler α κ → Reader (AsyncProtocolHandler α κ) UInt8
  | [], h => .waiting h []
  | p :: ps, h =>
    match ((h.readHead p.head).readBody p.body).onBody g p.body with
    | (false, h) => .stopped h
    | (true, h) => deliver ps h.readyForHead

/-- A body that has come whole is handed over. -/
theorem turn_body {h : AsyncProtocolHandler α κ} {p : Packet} (hp : p.Sound) (more : Blob) :
    turn g (h.readHead p.head) (p.body ++ more) =
      match ((h.readHead p.head).readBody p.body).onBody g p.body with
      | (false, h) => .stop h
      | (true, h) => .take h.readyForHead more := by
  have hfit : ¬ (p.body ++ more).length < p.body.length := by
    rw [List.length_append]
    omega
  unfold turn
  simp only [readHead, hp.measured, if_neg hfit, List.take_left, List.drop_left]

end AsyncProtocolHandler

end DarknetSpace.Levin
