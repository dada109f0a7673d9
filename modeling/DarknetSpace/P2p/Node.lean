import DarknetSpace.Net.Messages
import DarknetSpace.Lib.Runs

/-!
# A node among its peers (`net_node.h`, `net_node.inl`)

A node takes connections and makes its own, introduces itself, exchanges lists of
peers and what the maintainers have to say, and calls back who claims to have a port. A
command that is under way is answered or fails later, with anything in between.

The events are what comes from outside: the clock, connections, messages, answers, and the
maintainers' entry that is handed in over RPC. Each handler and each callback runs to its
end before another begins. The node has several threads for them, and takes its locks
inside: `handle_maintainers_entry` compares times before it locks, and `check_trust` does
not lock at all, so what is proved here of these two holds of runs in which they do not
overlap. What the handler of the currency says to a peer's `payload_data`, and what it
has to say itself, comes with the event.

What the handlers leave alone is in `NodeHandlers`; who gets onto the white list is in
`WhitePeers`, which word of the maintainers counts in `Maintainers`, and what a proof of
trust is good for in `Trust`.
-/

namespace DarknetSpace.Nodetool

open PortableStorage CurrencyProtocol

/-- `P2P_NETWORK_ID`. -/
def p2pNetworkId : Uuid := BitVec.ofNat 128 (podOfBytes
  [0x13, 0x30, 0x21, 0x31, 0x31, 0x20, 0x21, 0x21, 0x32, 0x31, 0x00, 0x32, 0x12, 0x31, 0x21, 0x10])

/-- `P2P_MAINTAINERS_PUB_KEY`. -/
def p2pMaintainersPubKey : PublicKey :=
  0xd446ca4e05b5d12bbc353cfd0c58abbee0b9e99b5f04eb7873251ef023581644

/-- `PROJECT_VERSION_BUILD_NO`. -/
def projectVersionBuildNo : UInt32 := 6

/-- `P2P_DEFAULT_PEERS_IN_HANDSHAKE`. -/
def p2pDefaultPeersInHandshake : UInt32 := 250

/-- `P2P_IP_BLOCKTIME`: an address is blocked for a day. -/
def p2pIpBlocktime : Int64 := 60 * 60 * 24

/-- `P2P_IP_FAILS_BEFOR_BLOCK`. -/
def p2pIpFailsBeforBlock : UInt64 := 10

/-- `PING_OK_RESPONSE_STATUS_TEXT`. -/
def pingOkResponseStatusText : Blob := nameOf "OK"

/-- `p2p_connection_context`, of what the handlers read and write. -/
structure P2pConnectionContext where
  mConnectionId : Nat
  mRemoteIp : UInt32
  mRemotePort : UInt32
  mIsIncome : Bool
  /-- zero before the handshake -/
  peerId : UInt64
  deriving DecidableEq

/-- The address of the other side. -/
def P2pConnectionContext.remote (c : P2pConnectionContext) : NetAddress :=
  ⟨c.mRemoteIp, c.mRemotePort⟩

/-- A `do_handshake_with_peer` that is waited for. -/
structure Handshaking where
  connectionId : Nat
  /-- whom the connection was made for -/
  na : NetAddress
  justTakePeerlist : Bool
  /-- `hsh_result` and `pi`, when the callback is through -/
  result : Option (Bool × UInt64)
  deriving DecidableEq

/-- A `try_ping` under way. -/
structure Pinging where
  adr : NetAddress
  pr : UInt64
  deriving DecidableEq

/-- `node_server`, of what the handlers read and write. -/
structure NodeServer where
  /-- `time(NULL)` -/
  now : Int64
  /-- `m_config.m_peer_id` -/
  mPeerId : UInt64
  myPort : UInt32
  mPeerlist : PeerlistManager
  /-- the connections of `m_net_server` -/
  mConnects : List P2pConnectionContext
  /-- those that are asked to close -/
  closing : List Nat
  /-- the `uuid`s there have been: none comes twice -/
  names : List Nat
  mMaintainersInfoLocal : MaintainersInfo
  mMaintainersEntryLocal : MaintainersEntry
  mAlertMode : UInt8
  mLastStatRequestTime : Int64
  mBlockedIps : UInt32 → Option Int64
  mIpFailsScore : UInt32 → UInt64
  handshakes : List Handshaking
  timedSyncs : List Nat
  pings : List Pinging

/-- What the currency's handler makes of a peer's `payload_data`, and what it says itself. -/
structure Payload where
  processed : Bool
  syncData : SyncData

namespace NodeServer

/-! ## Addresses that misbehave -/

/-- `is_remote_ip_allowed`: an address whose time is over is taken off the blocked ones. -/
def isRemoteIpAllowed (n : NodeServer) (addr : UInt32) : Bool × NodeServer :=
  match n.mBlockedIps addr with
  | none => (true, n)
  | some since =>
    if n.now - since > p2pIpBlocktime then
      (true, { n with mBlockedIps := fun ip => if ip = addr then none else n.mBlockedIps ip })
    else (false, n)

/-- `block_ip`. -/
def blockIp (n : NodeServer) (addr : UInt32) : NodeServer :=
  { n with mBlockedIps := fun ip => if ip = addr then some n.now else n.mBlockedIps ip }

def setFails (n : NodeServer) (address : UInt32) (fails : UInt64) : NodeServer :=
  { n with mIpFailsScore := fun ip => if ip = address then fails else n.mIpFailsScore ip }

/-- `add_ip_fail`. -/
def addIpFail (n : NodeServer) (address : UInt32) : NodeServer :=
  let fails := n.mIpFailsScore address + 1
  if fails > p2pIpFailsBeforBlock then
    (n.setFails address (p2pIpFailsBeforBlock / 2)).blockIp address
  else n.setFails address fails

/-- `drop_connection`, `close` of the connections' owner. -/
def dropConnection (n : NodeServer) (id : Nat) : NodeServer :=
  { n with closing := id :: n.closing }

/-! ## Maintainers -/

def alertModeOf (conditions : List AlertCondition) : UInt8 :=
  conditions.foldl (fun mode c =>
    if projectVersionBuildNo < c.ifBuildLessThen ∧ c.alertMode > mode then c.alertMode else mode) 0

/-- `handle_alert_conditions`. -/
def handleAlertConditions (n : NodeServer) : NodeServer :=
  { n with mAlertMode := alertModeOf n.mMaintainersInfoLocal.conditions }

/-- `on_maintainers_entry_update`; it logs besides. -/
def onMaintainersEntryUpdate (n : NodeServer) : NodeServer := n.handleAlertConditions

/-- What a signed entry says. -/
def readMaintainersEntry (env : Env) (me : MaintainersEntry) : Option MaintainersInfo :=
  if ¬ env.checkSignature (env.hashBlob me.maintainersInfoBuff) p2pMaintainersPubKey me.sign then
    none
  else
    match MaintainersInfo.kvMap.loadTFromBinary default me.maintainersInfoBuff with
    | (_, false) => none
    | (mi, true) => some mi

/-- `handle_maintainers_entry`. -/
def handleMaintainersEntry (env : Env) (n : NodeServer) (me : MaintainersEntry) :
    Bool × NodeServer :=
  if me.sign = nullSig then (true, n)
  else
    match readMaintainersEntry env me with
    | none => (false, n)
    | some mi =>
      if mi.timestamp > n.mMaintainersInfoLocal.timestamp then
        (true, onMaintainersEntryUpdate
          { n with mMaintainersEntryLocal := me, mMaintainersInfoLocal := mi })
      else (true, n)

/-! ## Lists of peers -/

/-- `fix_time_delta`: the times of a remote list, in the node's own time. -/
def fixTimeDelta (now localTime : Int64) : List PackedPeer → Option (List PackedPeer)
  | [] => some []
  | be :: peers =>
    if be.lastSeen > localTime then none
    else do
      let peers ← fixTimeDelta now localTime peers
      some ({ be with lastSeen := be.lastSeen + (now - localTime) } :: peers)

/-- `handle_remote_peerlist`. -/
def handleRemotePeerlist (n : NodeServer) (peerlist : List PackedPeer) (localTime : Int64) :
    Bool × NodeServer :=
  match fixTimeDelta n.now localTime peerlist with
  | none => (false, n)
  | some peers =>
    (true, { n with mPeerlist := n.mPeerlist.mergePeerlist (peers.map PackedPeer.toEntry) })

/-- `set_peer_just_seen`. -/
def setPeerJustSeen (n : NodeServer) (peer : UInt64) (addr : NetAddress) : NodeServer :=
  { n with mPeerlist := n.mPeerlist.setPeerJustSeen peer addr n.now.toInt }

/-- `append_with_peer_white` of an entry that is seen now. -/
def appendWhite (n : NodeServer) (adr : NetAddress) (id : UInt64) : NodeServer :=
  { n with mPeerlist := n.mPeerlist.appendWithPeerWhite ⟨adr, id, n.now.toInt⟩ }

/-- The head of the white list, as it is sent. -/
def localPeerlist (n : NodeServer) : List PackedPeer :=
  (n.mPeerlist.getPeerlistHead [] p2pDefaultPeersInHandshake).map fun e =>
    ⟨e.adr, e.id, Int64.ofInt e.lastSeen⟩

/-! ## Requests of peers -/

/-- `get_local_node_data`. -/
def getLocalNodeData (n : NodeServer) : BasicNodeData where
  networkId := p2pNetworkId
  localTime := n.now
  myPort := n.myPort
  peerId := n.mPeerId

def setPeerId (n : NodeServer) (id : Nat) (peerId : UInt64) : NodeServer :=
  { n with
    mConnects := n.mConnects.map fun c =>
      if c.mConnectionId = id then { c with peerId := peerId } else c }

/-- `try_ping`, as far as the connection. -/
def tryPing (n : NodeServer) (nodeData : BasicNodeData) (context : P2pConnectionContext) :
    NodeServer :=
  if nodeData.myPort = 0 then n
  else if ¬ n.mPeerlist.isIpAllowed context.mRemoteIp then n
  else { n with pings := ⟨⟨context.mRemoteIp, nodeData.myPort⟩, nodeData.peerId⟩ :: n.pings }

/-- `handle_handshake`. -/
def handleHandshake (env : Env) (n : NodeServer) (arg : HandshakeRequest)
    (context : P2pConnectionContext) (payload : Payload) : HandshakeResponse × NodeServer :=
  if arg.nodeData.networkId ≠ p2pNetworkId then
    (default, (n.dropConnection context.mConnectionId).addIpFail context.mRemoteIp)
  else if ¬ context.mIsIncome then
    (default, (n.dropConnection context.mConnectionId).addIpFail context.mRemoteIp)
  else if context.peerId ≠ 0 then (default, n.dropConnection context.mConnectionId)
  else
    match n.handleMaintainersEntry env arg.maintrsEntry with
    -- the connection stays
    | (false, n) => (default, n)
    | (true, n) =>
      if ¬ payload.processed then (default, n.dropConnection context.mConnectionId)
      else
        let n := n.setPeerId context.mConnectionId arg.nodeData.peerId
        let n :=
          if arg.nodeData.peerId ≠ n.mPeerId ∧ arg.nodeData.myPort ≠ 0 then
            n.tryPing arg.nodeData context
          else n
        (⟨n.getLocalNodeData, payload.syncData, n.localPeerlist, n.mMaintainersEntryLocal⟩, n)

/-- `handle_timed_sync`. -/
def handleTimedSync (env : Env) (n : NodeServer) (arg : TimedSyncRequest)
    (context : P2pConnectionContext) (payload : Payload) : TimedSyncResponse × NodeServer :=
  match n.handleMaintainersEntry env arg.maintrsEntry with
  | (false, n) => (default, n)
  | (true, n) =>
    if ¬ payload.processed then (default, n.dropConnection context.mConnectionId)
    else (⟨n.now, payload.syncData, n.localPeerlist, n.mMaintainersEntryLocal⟩, n)

/-- `get_proof_of_trust_hash`. -/
def getProofOfTrustHash (env : Env) (pot : ProofOfTrust) : Hash :=
  env.hashBlob (bytesOfPod 8 pot.peerId.toNat ++ bytesOfPod 8 pot.time.toBitVec.toNat)

/-- `check_trust`. -/
def checkTrust (env : Env) (n : NodeServer) (tr : ProofOfTrust) : Bool × NodeServer :=
  let timeDelata := if n.now > tr.time then n.now - tr.time else tr.time - n.now
  if timeDelata > 24 * 60 * 60 then (false, n)
  else if n.mLastStatRequestTime ≥ tr.time then (false, n)
  else if n.mPeerId ≠ tr.peerId then (false, n)
  else if ¬ env.checkSignature (getProofOfTrustHash env tr) p2pMaintainersPubKey tr.sign then
    (false, n)
  else (true, { n with mLastStatRequestTime := tr.time })

/-! ## Answers of peers -/

/-- The callback of `do_handshake_with_peer`: `hsh_result` and `pi`. -/
def onHandshakeAnswer (env : Env) (n : NodeServer) (context : P2pConnectionContext)
    (justTakePeerlist : Bool) (rsp : HandshakeResponse) (payload : Payload) :
    (Bool × UInt64) × NodeServer :=
  if rsp.nodeData.networkId ≠ p2pNetworkId then ((false, 0), n)
  else
    match n.handleMaintainersEntry env rsp.maintrsEntry with
    | (false, n) => ((false, 0), n)
    | (true, n) =>
      match n.handleRemotePeerlist rsp.localPeerlist rsp.nodeData.localTime with
      | (false, n) => ((false, 0), n.addIpFail context.mRemoteIp)
      | (true, n) =>
        if justTakePeerlist then ((true, 0), n)
        else if ¬ payload.processed then ((false, 0), n)
        else
          let n := n.setPeerId context.mConnectionId rsp.nodeData.peerId
          let n := n.setPeerJustSeen rsp.nodeData.peerId context.remote
          -- a connection to itself is noticed after the address has been taken
          if rsp.nodeData.peerId = n.mPeerId then ((false, rsp.nodeData.peerId), n)
          else ((true, rsp.nodeData.peerId), n)

/-- The rest of `do_handshake_with_peer` and of `try_to_connect_and_handshake_with_new_peer`. -/
def afterHandshake (n : NodeServer) (h : Handshaking) : Bool × UInt64 → NodeServer
  | (false, _) => n.dropConnection h.connectionId
  | (true, pi) =>
    if h.justTakePeerlist then n.dropConnection h.connectionId else n.appendWhite h.na pi

/-- The callback of `do_peer_timed_sync`. -/
def onTimedSyncAnswer (env : Env) (n : NodeServer) (context : P2pConnectionContext)
    (rsp : TimedSyncResponse) : NodeServer :=
  match n.handleMaintainersEntry env rsp.maintrsEntry with
  | (false, n) => n
  | (true, n) =>
    let n :=
      match n.handleRemotePeerlist rsp.localPeerlist rsp.localTime with
      | (false, n) => (n.dropConnection context.mConnectionId).addIpFail context.mRemoteIp
      -- and on it goes
      | (true, n) => n
    if ¬ context.mIsIncome then n.setPeerJustSeen context.peerId context.remote else n

/-- The callback of the ping, and the callback of `handle_handshake` behind it. -/
def onPingAnswer (n : NodeServer) (ping : Pinging) (rsp : PingResponse) : NodeServer :=
  if rsp.status ≠ pingOkResponseStatusText ∨ ping.pr ≠ rsp.peerId then n
  else n.appendWhite ping.adr ping.pr

/-! ## Events -/

/-- What happens to a node. -/
inductive Event where
  | tick (now : Int64)
  | accept (id : Nat) (remote : NetAddress)
  | closed (id : Nat)
  | handshakeRequest (id : Nat) (arg : HandshakeRequest) (payload : Payload)
  | timedSyncRequest (id : Nat) (arg : TimedSyncRequest) (payload : Payload)
  | trustRequest (id : Nat) (tr : ProofOfTrust)
  /-- `try_to_connect_and_handshake_with_new_peer`: the connection for `na` stands, to `remote` -/
  | connect (id : Nat) (na remote : NetAddress) (justTakePeerlist : Bool)
  | handshakeAnswer (i : Nat) (rsp : HandshakeResponse) (payload : Payload)
  /-- with an error, or never sent -/
  | handshakeFails (i : Nat)
  | handshakeDone (i : Nat)
  /-- `peer_sync_idle_maker` -/
  | peerSyncIdleMaker
  | timedSyncAnswer (i : Nat) (rsp : TimedSyncResponse)
  | timedSyncFails (i : Nat)
  | pingAnswer (i : Nat) (rsp : PingResponse)
  | pingFails (i : Nat)
  /-- the currency's handler finds fault with a peer -/
  | ipFail (address : UInt32)
  /-- `on_set_maintainers_info`, `/set_maintainers_info.bin` of the RPC server -/
  | setMaintainersInfo (req : MaintainersEntry)

/-- The context of a connection. -/
def findContext (n : NodeServer) (id : Nat) : Option P2pConnectionContext :=
  n.mConnects.find? fun c => c.mConnectionId = id

/-- A new connection, with a name of its own. -/
def addConnection (n : NodeServer) (c : P2pConnectionContext) : Option NodeServer :=
  if c.mConnectionId ∈ n.names then none
  else some { n with mConnects := c :: n.mConnects, names := c.mConnectionId :: n.names }

/-- A connection from outside; `start` asks whether the address is blocked. -/
def acceptConnection (n : NodeServer) (id : Nat) (remote : NetAddress) : Option NodeServer :=
  match n.isRemoteIpAllowed remote.ip with
  | (false, n) => some n
  | (true, n) => n.addConnection ⟨id, remote.ip, remote.port, true, 0⟩

/-- What `handle_get_stat_info` and `handle_get_network_state` do first. -/
def onTrustRequest (env : Env) (n : NodeServer) (id : Nat) (tr : ProofOfTrust) : NodeServer :=
  match n.checkTrust env tr with
  | (false, n) => n.dropConnection id
  | (true, n) => n

def setResult (n : NodeServer) (i : Nat) (h : Handshaking) (result : Bool × UInt64) : NodeServer :=
  { n with handshakes := n.handshakes.set i { h with result := some result } }

/-- What an event does, if it can happen. -/
def step (env : Env) : Event → NodeServer → Option NodeServer
  | .tick now, n => some { n with now := now }
  | .accept id remote, n => n.acceptConnection id remote
  | .closed id, n =>
    some { n with
      mConnects := n.mConnects.filter fun c => c.mConnectionId ≠ id
      closing := n.closing.filter (· ≠ id) }
  | .handshakeRequest id arg payload, n => do
    let context ← n.findContext id
    some (n.handleHandshake env arg context payload).2
  | .timedSyncRequest id arg payload, n => do
    let context ← n.findContext id
    some (n.handleTimedSync env arg context payload).2
  | .trustRequest id tr, n => some (n.onTrustRequest env id tr)
  | .connect id na remote justTakePeerlist, n => do
    let n ← n.addConnection ⟨id, remote.ip, remote.port, false, 0⟩
    some { n with handshakes := n.handshakes ++ [⟨id, na, justTakePeerlist, none⟩] }
  | .handshakeAnswer i rsp payload, n => do
    let h ← n.handshakes[i]?
    if h.result.isSome then none
    let context ← n.findContext h.connectionId
    let r := n.onHandshakeAnswer env context h.justTakePeerlist rsp payload
    some (r.2.setResult i h r.1)
  | .handshakeFails i, n => do
    let h ← n.handshakes[i]?
    if h.result.isSome then none
    some (n.setResult i h (false, 0))
  | .handshakeDone i, n => do
    let h ← n.handshakes[i]?
    let result ← h.result
    some ({ n with handshakes := n.handshakes.eraseIdx i }.afterHandshake h result)
  | .peerSyncIdleMaker, n =>
    -- only connections that have shaken hands
    some { n with
      timedSyncs := n.timedSyncs ++
        (n.mConnects.filter fun c => c.peerId ≠ 0).map P2pConnectionContext.mConnectionId }
  | .timedSyncAnswer i rsp, n => do
    let id ← n.timedSyncs[i]?
    let context ← n.findContext id
    some ({ n with timedSyncs := n.timedSyncs.eraseIdx i }.onTimedSyncAnswer env context rsp)
  | .timedSyncFails i, n => some { n with timedSyncs := n.timedSyncs.eraseIdx i }
  | .pingAnswer i rsp, n => do
    let ping ← n.pings[i]?
    some ({ n with pings := n.pings.eraseIdx i }.onPingAnswer ping rsp)
  | .pingFails i, n => some { n with pings := n.pings.eraseIdx i }
  | .ipFail address, n => some (n.addIpFail address)
  | .setMaintainersInfo req, n => some (n.handleMaintainersEntry env req).2

/-- `init`: what the state file has, which peers the command line adds and which it blocks. -/
def init (now : Int64) (peerId : UInt64) (myPort : UInt32) (stored : PeerlistManager)
    (info : MaintainersInfo) (entry : MaintainersEntry) (blocked : UInt32 → Option Int64)
    (commandLinePeers : List PeerlistEntry) (commandLineBlockedPeers : List UInt32) : NodeServer :=
  let n : NodeServer :=
    { now := now, mPeerId := peerId, myPort := myPort
      mPeerlist := commandLinePeers.foldl PeerlistManager.appendWithPeerWhite stored
      mConnects := [], closing := [], names := []
      mMaintainersInfoLocal := info, mMaintainersEntryLocal := entry
      mAlertMode := alertModeOf info.conditions
      mLastStatRequestTime := 0
      mBlockedIps := blocked, mIpFailsScore := fun _ => 0
      handshakes := [], timedSyncs := [], pings := [] }
  commandLineBlockedPeers.foldl blockIp n

/-! ## A network to try things on -/

/-- Every signature is good, and nothing else matters. -/
def trusting : Env where
  hashPrefix _ := 0
  hashBlock _ := 0
  hashTxTree _ := 0
  hashTogether _ _ := 0
  hashBlob _ := 0
  prefixBlobsize _ := 0
  longhash _ _ _ := 0
  checkHash _ _ := true
  checkRingSignature _ _ _ _ := true
  checkSignature _ _ _ := true
  checkKey _ := true
  isOutToAcc _ _ _ _ := true
  parseTx _ := none
  donationsAccount := ⟨⟨0, 0⟩, 0⟩
  royaltyAccount := ⟨⟨0, 0⟩, 0⟩

/-- A node at the time 1000 that knows nobody. -/
def alone : NodeServer :=
  init 1000 1 8080 (PeerlistManager.init true) default default (fun _ => none) [] []

/-- A maintainers' entry of the time 7. -/
def entryOfSeven : MaintainersEntry :=
  ⟨storageBlockHeader ++ [4, 2, 116, 115, 5, 7, 0, 0, 0, 0, 0, 0, 0], 1⟩

/-- The peer 2 is called at its address and answers, with the entry and one peer it knows. -/
def callOfTwo : List Event :=
  [.connect 0 ⟨9, 80⟩ ⟨9, 80⟩ false,
   .handshakeAnswer 0 ⟨⟨p2pNetworkId, 1000, 80, 2⟩, default, [⟨⟨11, 80⟩, 3, 900⟩], entryOfSeven⟩
     ⟨true, default⟩,
   .handshakeDone 0]

def afterCall : NodeServer := (Runs.run (step trusting) callOfTwo alone).getD alone
/-! ## The start -/

/-- A node at its start: no connections yet, and the alert as the maintainers want it. -/
structure Fresh (n : NodeServer) : Prop where
  connects : n.mConnects = []
  handshakes : n.handshakes = []
  mAlertMode : n.mAlertMode = alertModeOf n.mMaintainersInfoLocal.conditions

theorem init_fresh (now : Int64) (peerId : UInt64) (myPort : UInt32) (stored : PeerlistManager)
    (info : MaintainersInfo) (entry : MaintainersEntry) (blocked : UInt32 → Option Int64)
    (commandLinePeers : List PeerlistEntry) (commandLineBlockedPeers : List UInt32) :
    (init now peerId myPort stored info entry blocked commandLinePeers
      commandLineBlockedPeers).Fresh := by
  have hfold : ∀ (ips : List UInt32) (n : NodeServer), n.Fresh → (ips.foldl blockIp n).Fresh := by
    intro ips
    induction ips with
    | nil => exact fun n h => h
    | cons ip ips ih => exact fun n h => ih _ ⟨h.connects, h.handshakes, h.mAlertMode⟩
  exact hfold _ _ ⟨rfl, rfl, rfl⟩

theorem alone_fresh : alone.Fresh := init_fresh ..

theorem callOfTwo_runs : Runs.run (step trusting) callOfTwo alone = some afterCall := by
  have hsome : (Runs.run (step trusting) callOfTwo alone).isSome = true := by decide +kernel
  obtain ⟨n, hn⟩ := Option.isSome_iff_exists.1 hsome
  unfold afterCall
  rw [hn]
  rfl
end NodeServer

end DarknetSpace.Nodetool
