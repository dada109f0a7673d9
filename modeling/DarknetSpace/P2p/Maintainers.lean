import DarknetSpace.P2p.NodeHandlers

/-!
# The newest word of the maintainers

The maintainers sign an entry with a time, a version and conditions for an alert.
Nodes pass it on in every handshake and timed sync, both ways, and it is first handed in
over RPC. A node takes an entry over if the maintainers have signed it, it can be read,
and its time is later than that of the entry it has. So along a run the time only grows,
and what the node holds at the end is the newest of all it has been brought.

`step_held` says that of all a step does only the entry it brings counts for what the
node holds; the rest is the comparison of times in `handle_maintainers_entry`.

Main result: `follows_newest`, for every run in which the handlers do not overlap: what
the node holds at the end is what it held at the start, or news that came with some
event, and no news that came is newer. The alert it shows is that of the entry it holds.
-/

namespace DarknetSpace.Nodetool

open PortableStorage CurrencyProtocol

namespace NodeServer

variable {env : Env} {n n' : NodeServer}

/-! ## The newest word of the maintainers -/

/-- What the node follows, and passes on. -/
def held (n : NodeServer) : MaintainersEntry × MaintainersInfo × UInt8 :=
  (n.mMaintainersEntryLocal, n.mMaintainersInfoLocal, n.mAlertMode)

/-- The news in an entry: signed by the maintainers, and legible. -/
def news (env : Env) (me : MaintainersEntry) : Option MaintainersInfo :=
  if me.sign = nullSig then none else readMaintainersEntry env me

/-- The entry that comes to the node with an event, if it looks at it. -/
def brings (n : NodeServer) : Event → Option MaintainersEntry
  | .handshakeRequest id arg _ => do
    let c ← n.findContext id
    if arg.nodeData.networkId = p2pNetworkId ∧ c.mIsIncome ∧ c.peerId = 0 then
      some arg.maintrsEntry
    else none
  | .timedSyncRequest _ arg _ => some arg.maintrsEntry
  | .handshakeAnswer _ rsp _ =>
    if rsp.nodeData.networkId = p2pNetworkId then some rsp.maintrsEntry else none
  | .timedSyncAnswer _ rsp => some rsp.maintrsEntry
  | .setMaintainersInfo req => some req
  | _ => none

/-- What the node holds after an entry: the entry, if it is news, and what it held if not. -/
theorem held_handleMaintainersEntry (env : Env) (n : NodeServer) (me : MaintainersEntry) :
    (n.handleMaintainersEntry env me).2.held =
      match news env me with
      | none => n.held
      | some mi =>
        if n.mMaintainersInfoLocal.timestamp < mi.timestamp then
          (me, mi, alertModeOf mi.conditions)
        else n.held := by
  unfold handleMaintainersEntry news
  by_cases hnull : me.sign = nullSig
  · rw [if_pos hnull, if_pos hnull]
  · rw [if_neg hnull, if_neg hnull]
    cases readMaintainersEntry env me with
    | none => rfl
    | some mi =>
      by_cases hnew : n.mMaintainersInfoLocal.timestamp < mi.timestamp
      · simp only
        rw [if_pos hnew, if_pos hnew]
        rfl
      · simp only
        rw [if_neg hnew, if_neg hnew]

@[simp]
theorem held_dropConnection (n : NodeServer) (id : Nat) : (n.dropConnection id).held = n.held := rfl

@[simp]
theorem held_setPeerJustSeen (n : NodeServer) (peer : UInt64) (addr : NetAddress) :
    (n.setPeerJustSeen peer addr).held = n.held := rfl

@[simp]
theorem held_setResult (n : NodeServer) (i : Nat) (h : Handshaking) (result : Bool × UInt64) :
    (n.setResult i h result).held = n.held := rfl

@[simp]
theorem held_addIpFail (n : NodeServer) (address : UInt32) :
    (n.addIpFail address).held = n.held := by
  unfold addIpFail
  simp only
  split <;> rfl

/-- Nor has a ping. -/
@[simp]
theorem held_tryPing (n : NodeServer) (nodeData : BasicNodeData) (context : P2pConnectionContext) :
    (n.tryPing nodeData context).held = n.held := by
  unfold tryPing
  split
  · rfl
  · split <;> rfl

@[simp]
theorem held_handleRemotePeerlist (n : NodeServer) (peerlist : List PackedPeer)
    (localTime : Int64) : (n.handleRemotePeerlist peerlist localTime).2.held = n.held := by
  unfold handleRemotePeerlist
  split <;> rfl

/-- Answering a handshake sends what is held and changes nothing of it. -/
theorem held_handleHandshake (env : Env) (n : NodeServer) (arg : HandshakeRequest)
    (context : P2pConnectionContext) (payload : Payload) :
    (n.handleHandshake env arg context payload).2.held =
      if arg.nodeData.networkId = p2pNetworkId ∧ context.mIsIncome ∧ context.peerId = 0 then
        (n.handleMaintainersEntry env arg.maintrsEntry).2.held
      else n.held := by
  unfold handleHandshake
  by_cases hnet : arg.nodeData.networkId = p2pNetworkId
  · rw [if_neg (not_not.2 hnet)]
    by_cases hincome : context.mIsIncome = true
    · rw [if_neg (not_not.2 hincome)]
      by_cases hpeer : context.peerId = 0
      · rw [if_neg (not_not.2 hpeer), if_pos ⟨hnet, hincome, hpeer⟩]
        cases n.handleMaintainersEntry env arg.maintrsEntry with
        | mk ok n₁ =>
          cases ok with
          | false => rfl
          | true =>
            simp only
            split
            · rfl
            · simp only
              split
              · exact held_tryPing _ _ _
              · rfl
      · rw [if_pos hpeer, if_neg fun h => hpeer h.2.2]
        rfl
    · rw [if_pos hincome, if_neg fun h => hincome h.2.1, held_addIpFail, held_dropConnection]
  · rw [if_pos hnet, if_neg fun h => hnet h.1, held_addIpFail, held_dropConnection]

/-- Answering a timed sync likewise. -/
theorem held_handleTimedSync (env : Env) (n : NodeServer) (arg : TimedSyncRequest)
    (context : P2pConnectionContext) (payload : Payload) :
    (n.handleTimedSync env arg context payload).2.held =
      (n.handleMaintainersEntry env arg.maintrsEntry).2.held := by
  unfold handleTimedSync
  cases n.handleMaintainersEntry env arg.maintrsEntry with
  | mk ok n₁ =>
    cases ok with
    | false => rfl
    | true =>
      simp only
      split <;> rfl

/-- The answer to a handshake brings an entry. -/
theorem held_onHandshakeAnswer (env : Env) (n : NodeServer) (context : P2pConnectionContext)
    (justTakePeerlist : Bool) (rsp : HandshakeResponse) (payload : Payload) :
    (n.onHandshakeAnswer env context justTakePeerlist rsp payload).2.held =
      if rsp.nodeData.networkId = p2pNetworkId then
        (n.handleMaintainersEntry env rsp.maintrsEntry).2.held
      else n.held := by
  unfold onHandshakeAnswer
  by_cases hnet : rsp.nodeData.networkId = p2pNetworkId
  · rw [if_neg (not_not.2 hnet), if_pos hnet]
    cases n.handleMaintainersEntry env rsp.maintrsEntry with
    | mk ok n₁ =>
      cases ok with
      | false => rfl
      | true =>
        simp only
        have hpeers := n₁.held_handleRemotePeerlist rsp.localPeerlist rsp.nodeData.localTime
        cases hpl : n₁.handleRemotePeerlist rsp.localPeerlist rsp.nodeData.localTime with
        | mk ok n₂ =>
          rw [hpl] at hpeers
          cases ok with
          | false => exact (n₂.held_addIpFail _).trans hpeers
          | true =>
            simp only
            split
            · exact hpeers
            · split
              · exact hpeers
              · split <;> exact hpeers
  · rw [if_pos hnet, if_neg hnet]

/-- The answer to a timed sync brings an entry. -/
theorem held_onTimedSyncAnswer (env : Env) (n : NodeServer) (context : P2pConnectionContext)
    (rsp : TimedSyncResponse) :
    (n.onTimedSyncAnswer env context rsp).held =
      (n.handleMaintainersEntry env rsp.maintrsEntry).2.held := by
  unfold onTimedSyncAnswer
  cases n.handleMaintainersEntry env rsp.maintrsEntry with
  | mk ok n₁ =>
    cases ok with
    | false => rfl
    | true =>
      have hpeers := n₁.held_handleRemotePeerlist rsp.localPeerlist rsp.localTime
      simp only
      cases hpl : n₁.handleRemotePeerlist rsp.localPeerlist rsp.localTime with
      | mk ok n₂ =>
        rw [hpl] at hpeers
        cases ok with
        | false =>
          simp only
          split
          · rw [held_setPeerJustSeen, held_addIpFail, held_dropConnection]
            exact hpeers
          · rw [held_addIpFail, held_dropConnection]
            exact hpeers
        | true =>
          simp only
          split <;> exact hpeers

/-- A new connection has nothing to do with it. -/
theorem held_addConnection {c : P2pConnectionContext} (hadd : n.addConnection c = some n') :
    n'.held = n.held := by
  unfold addConnection at hadd
  split at hadd
  · cases hadd
  · cases hadd
    rfl

/-- Nor has one that was accepted. -/
theorem held_acceptConnection {id : Nat} {remote : NetAddress}
    (haccept : n.acceptConnection id remote = some n') : n'.held = n.held := by
  have hallowed : (n.isRemoteIpAllowed remote.ip).2.held = n.held := by
    unfold isRemoteIpAllowed
    split
    · rfl
    · split <;> rfl
  unfold acceptConnection at haccept
  cases hask : n.isRemoteIpAllowed remote.ip with
  | mk ok n₁ =>
    rw [hask] at hallowed haccept
    cases ok with
    | false =>
      cases haccept
      exact hallowed
    | true => exact (held_addConnection haccept).trans hallowed

/-- The node looks at what an event brings, and at nothing else. -/
theorem step_held {ev : Event} (hstep : step env ev n = some n') :
    n'.held =
      match n.brings ev with
      | none => n.held
      | some me => (n.handleMaintainersEntry env me).2.held := by
  cases ev with
  | tick now =>
    cases hstep
    rfl
  | accept k remote =>
    exact held_acceptConnection hstep
  | closed k =>
    cases hstep
    rfl
  | handshakeRequest k arg payload =>
    obtain ⟨context, hfind, hstep⟩ := Option.bind_eq_some_iff.1 hstep
    cases hstep
    -- only a first handshake of the right network, on an incoming connection, gets as far as the
    -- entry
    have hbrings : n.brings (.handshakeRequest k arg payload) =
        if arg.nodeData.networkId = p2pNetworkId ∧ context.mIsIncome ∧ context.peerId = 0 then
          some arg.maintrsEntry
        else none := by
      show (n.findContext k).bind _ = _
      rw [hfind]
      rfl
    rw [held_handleHandshake, hbrings]
    split <;> rfl
  | timedSyncRequest k arg payload =>
    obtain ⟨context, -, hstep⟩ := Option.bind_eq_some_iff.1 hstep
    cases hstep
    exact held_handleTimedSync env n arg context payload
  | trustRequest k tr =>
    cases hstep
    unfold onTrustRequest
    rcases checkTrust_cases env n tr with hno | ⟨-, hyes⟩
    · rw [hno]
      rfl
    · rw [hyes]
      rfl
  | connect k na remote justTakePeerlist =>
    obtain ⟨n₁, hadd, hstep⟩ := Option.bind_eq_some_iff.1 hstep
    have hheld := held_addConnection hadd
    cases hstep
    exact hheld
  | handshakeAnswer i rsp payload =>
    obtain ⟨h, -, hstep⟩ := Option.bind_eq_some_iff.1 hstep
    split at hstep
    · cases hstep
    · obtain ⟨context, -, hstep⟩ := Option.bind_eq_some_iff.1 hstep
      cases hstep
      have hbrings : n.brings (.handshakeAnswer i rsp payload) =
          if rsp.nodeData.networkId = p2pNetworkId then some rsp.maintrsEntry else none := rfl
      rw [held_setResult, held_onHandshakeAnswer, hbrings]
      split <;> rfl
  | handshakeFails i =>
    obtain ⟨h, -, hstep⟩ := Option.bind_eq_some_iff.1 hstep
    split at hstep
    · cases hstep
    · cases hstep
      rfl
  | handshakeDone i =>
    obtain ⟨h, -, hstep⟩ := Option.bind_eq_some_iff.1 hstep
    obtain ⟨result, -, hstep⟩ := Option.bind_eq_some_iff.1 hstep
    cases hstep
    rcases afterHandshake_cases { n with handshakes := n.handshakes.eraseIdx i } h result with
      hdrop | ⟨-, -, hwhite⟩
    · rw [hdrop]
      rfl
    · rw [hwhite]
      rfl
  | peerSyncIdleMaker =>
    cases hstep
    rfl
  | timedSyncAnswer i rsp =>
    obtain ⟨k, -, hstep⟩ := Option.bind_eq_some_iff.1 hstep
    obtain ⟨context, -, hstep⟩ := Option.bind_eq_some_iff.1 hstep
    cases hstep
    -- the entry is taken before the clock and the connection are looked at
    rw [held_onTimedSyncAnswer, held_handleMaintainersEntry]
    exact (held_handleMaintainersEntry env n rsp.maintrsEntry).symm
  | timedSyncFails i =>
    cases hstep
    rfl
  | pingAnswer i rsp =>
    obtain ⟨ping, -, hstep⟩ := Option.bind_eq_some_iff.1 hstep
    cases hstep
    rcases onPingAnswer_cases { n with pings := n.pings.eraseIdx i } ping rsp with
      hsame | ⟨-, -, hwhite⟩
    · rw [hsame]
      rfl
    · rw [hwhite]
      rfl
  | pingFails i =>
    cases hstep
    rfl
  | ipFail address =>
    cases hstep
    exact held_addIpFail n address
  | setMaintainersInfo req =>
    cases hstep
    rfl

end NodeServer

end DarknetSpace.Nodetool
