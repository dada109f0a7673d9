import DarknetSpace.P2p.Node

/-!
# What the handlers of a node leave alone

Most of what a node does for a peer is no step towards the white list: it counts
failures, drops connections, takes over what the maintainers say, merges what a peer
tells of others into the gray list, begins a ping. `Quiet` says what all of it has in
common: nobody new is white, connections and handshakes stay who they are, and the time
of the last proof of trust only grows. Each handler and each callback is taken apart
here once, into quiet work and the one step that is not quiet, if it has one; the
invariants of the next files are read off these lemmas.
-/

namespace DarknetSpace.Nodetool

open PortableStorage CurrencyProtocol

namespace NodeServer

variable {env : Env} {n n' : NodeServer}

/-- Nobody new is white, and connections and handshakes are the same, a connection's `peer_id`
apart. -/
structure Quiet (n n' : NodeServer) : Prop where
  white : ∀ e ∈ n'.mPeerlist.mPeersWhite.entries, e ∈ n.mPeerlist.mPeersWhite.entries
  connects : n'.mConnects.map (fun c => (c.mConnectionId, c.remote, c.mIsIncome)) =
    n.mConnects.map (fun c => (c.mConnectionId, c.remote, c.mIsIncome))
  names : n'.names = n.names
  handshakes : n'.handshakes = n.handshakes
  last : n.mLastStatRequestTime ≤ n'.mLastStatRequestTime
  peerId : n'.mPeerId = n.mPeerId

namespace Quiet

theorem refl (n : NodeServer) : Quiet n n := ⟨fun _ he => he, rfl, rfl, rfl, Int64.le_refl _, rfl⟩

theorem trans {a b c : NodeServer} (hab : Quiet a b) (hbc : Quiet b c) : Quiet a c :=
  ⟨fun e he => hab.white e (hbc.white e he), hbc.connects.trans hab.connects,
    hbc.names.trans hab.names, hbc.handshakes.trans hab.handshakes,
    Int64.le_trans hab.last hbc.last, hbc.peerId.trans hab.peerId⟩

end Quiet

theorem dropConnection_quiet (n : NodeServer) (id : Nat) : Quiet n (n.dropConnection id) :=
  ⟨fun _ he => he, rfl, rfl, rfl, Int64.le_refl _, rfl⟩

theorem addIpFail_quiet (n : NodeServer) (address : UInt32) : Quiet n (n.addIpFail address) := by
  unfold addIpFail
  simp only
  split <;> exact ⟨fun _ he => he, rfl, rfl, rfl, Int64.le_refl _, rfl⟩

theorem isRemoteIpAllowed_quiet (n : NodeServer) (addr : UInt32) :
    Quiet n (n.isRemoteIpAllowed addr).2 := by
  unfold isRemoteIpAllowed
  split
  · exact .refl n
  · split <;> exact ⟨fun _ he => he, rfl, rfl, rfl, Int64.le_refl _, rfl⟩

/-- A maintainers' entry changes what the node holds of them, never to an older one. -/
theorem handleMaintainersEntry_quiet (env : Env) (n : NodeServer) (me : MaintainersEntry) :
    Quiet n (n.handleMaintainersEntry env me).2 := by
  unfold handleMaintainersEntry
  split
  · exact .refl n
  · split
    · exact .refl n
    · split <;> exact ⟨fun _ he => he, rfl, rfl, rfl, Int64.le_refl _, rfl⟩

/-- A connection gets the id its peer gave. -/
theorem setPeerId_quiet (n : NodeServer) (id : Nat) (peerId : UInt64) :
    Quiet n (n.setPeerId id peerId) := by
  refine ⟨fun _ he => he, ?_, rfl, rfl, Int64.le_refl _, rfl⟩
  show (n.mConnects.map _).map _ = _
  rw [List.map_map]
  refine List.map_congr_left fun c _ => ?_
  show _ = (c.mConnectionId, c.remote, c.mIsIncome)
  simp only [Function.comp_apply]
  split <;> rfl

/-- A ping is put on its way. -/
theorem tryPing_quiet (n : NodeServer) (nodeData : BasicNodeData) (context : P2pConnectionContext) :
    Quiet n (n.tryPing nodeData context) := by
  unfold tryPing
  split
  · exact .refl n
  · split
    · exact .refl n
    · exact ⟨fun _ he => he, rfl, rfl, rfl, Int64.le_refl _, rfl⟩

theorem appendWithPeerGray_keepsWhite {m : PeerlistManager} {ple e : PeerlistEntry}
    (he : e ∈ (m.appendWithPeerGray ple).mPeersWhite.entries) : e ∈ m.mPeersWhite.entries := by
  rcases m.appendWithPeerGray_white ple with hsame | htrim
  · rwa [hsame] at he
  · rw [htrim] at he
    exact (Timed.trim_sublist _ _).subset he

/-- What a peer says of others makes none of them white. -/
theorem handleRemotePeerlist_quiet (n : NodeServer) (peerlist : List PackedPeer)
    (localTime : Int64) : Quiet n (n.handleRemotePeerlist peerlist localTime).2 := by
  unfold handleRemotePeerlist
  split
  · exact .refl n
  · rename_i peers _
    refine ⟨fun e he => ?_, rfl, rfl, rfl, Int64.le_refl _, rfl⟩
    have he : e ∈ ((peers.map PackedPeer.toEntry).foldl PeerlistManager.appendWithPeerGray
        n.mPeerlist).mPeersWhite.entries := (Timed.trim_sublist _ _).subset he
    generalize n.mPeerlist = m at he ⊢
    generalize peers.map PackedPeer.toEntry = outerBs at he
    induction outerBs generalizing m with
    | nil => exact he
    | cons be outerBs ih => exact appendWithPeerGray_keepsWhite (ih _ he)

/-- Answering a handshake. -/
theorem handleHandshake_quiet (env : Env) (n : NodeServer) (arg : HandshakeRequest)
    (context : P2pConnectionContext) (payload : Payload) :
    Quiet n (n.handleHandshake env arg context payload).2 := by
  unfold handleHandshake
  have hentry := handleMaintainersEntry_quiet env n arg.maintrsEntry
  split
  · exact (n.dropConnection_quiet _).trans (addIpFail_quiet _ _)
  · split
    · exact (n.dropConnection_quiet _).trans (addIpFail_quiet _ _)
    · split
      · exact n.dropConnection_quiet _
      · cases hme : n.handleMaintainersEntry env arg.maintrsEntry with
        | mk ok n₁ =>
          rw [hme] at hentry
          cases ok with
          | false => exact hentry
          | true =>
            simp only
            split
            · exact hentry.trans (n₁.dropConnection_quiet _)
            · have hset :=
                hentry.trans (n₁.setPeerId_quiet context.mConnectionId arg.nodeData.peerId)
              simp only
              split
              · exact hset.trans (tryPing_quiet _ _ _)
              · exact hset

/-- Answering a timed sync. -/
theorem handleTimedSync_quiet (env : Env) (n : NodeServer) (arg : TimedSyncRequest)
    (context : P2pConnectionContext) (payload : Payload) :
    Quiet n (n.handleTimedSync env arg context payload).2 := by
  unfold handleTimedSync
  have hentry := handleMaintainersEntry_quiet env n arg.maintrsEntry
  cases hme : n.handleMaintainersEntry env arg.maintrsEntry with
  | mk ok n₁ =>
    rw [hme] at hentry
    cases ok with
    | false => exact hentry
    | true =>
      simp only
      split
      · exact hentry.trans (n₁.dropConnection_quiet _)
      · exact hentry

/-- A proof is younger than the last one that was accepted, or refused. -/
theorem checkTrust_cases (env : Env) (n : NodeServer) (tr : ProofOfTrust) :
    n.checkTrust env tr = (false, n) ∨ n.mLastStatRequestTime < tr.time ∧
      n.checkTrust env tr = (true, { n with mLastStatRequestTime := tr.time }) := by
  unfold checkTrust
  simp only
  by_cases hday : (if n.now > tr.time then n.now - tr.time else tr.time - n.now) > 24 * 60 * 60
  · exact .inl (if_pos hday)
  · rw [if_neg hday]
    by_cases hlast : n.mLastStatRequestTime ≥ tr.time
    · exact .inl (if_pos hlast)
    · rw [if_neg hlast]
      by_cases hpeer : n.mPeerId ≠ tr.peerId
      · exact .inl (if_pos hpeer)
      · rw [if_neg hpeer]
        split
        · exact .inl rfl
        · exact .inr ⟨Int64.not_le.1 hlast, rfl⟩

/-- Answering a request that needs a proof of trust. -/
theorem onTrustRequest_quiet (env : Env) (n : NodeServer) (id : Nat) (tr : ProofOfTrust) :
    Quiet n (n.onTrustRequest env id tr) := by
  unfold onTrustRequest
  rcases checkTrust_cases env n tr with hno | ⟨hlast, hyes⟩
  · rw [hno]
    exact n.dropConnection_quiet id
  · rw [hyes]
    exact ⟨fun _ he => he, rfl, rfl, rfl, Int64.le_of_lt hlast, rfl⟩

/-- A handshake that is answered well puts the other end on the white list, whoever it is; it counts
as done only if it is not the node itself. -/
theorem onHandshakeAnswer_cases (env : Env) (n : NodeServer) (context : P2pConnectionContext)
    (justTakePeerlist : Bool) (rsp : HandshakeResponse) (payload : Payload) :
    (Quiet n (n.onHandshakeAnswer env context justTakePeerlist rsp payload).2 ∧
      ((n.onHandshakeAnswer env context justTakePeerlist rsp payload).1.1 = true →
        justTakePeerlist = true)) ∨
    rsp.nodeData.networkId = p2pNetworkId ∧
      (n.onHandshakeAnswer env context justTakePeerlist rsp payload).1.2 = rsp.nodeData.peerId ∧
      ∃ n₁, Quiet n n₁ ∧
        (n.onHandshakeAnswer env context justTakePeerlist rsp payload).2 =
          n₁.setPeerJustSeen rsp.nodeData.peerId context.remote := by
  unfold onHandshakeAnswer
  have hentry := handleMaintainersEntry_quiet env n rsp.maintrsEntry
  by_cases hnet : rsp.nodeData.networkId ≠ p2pNetworkId
  · rw [if_pos hnet]
    exact .inl ⟨.refl n, nofun⟩
  · rw [if_neg hnet]
    cases hme : n.handleMaintainersEntry env rsp.maintrsEntry with
    | mk ok n₁ =>
      rw [hme] at hentry
      cases ok with
      | false => exact .inl ⟨hentry, nofun⟩
      | true =>
        have hpeers := hentry.trans
          (n₁.handleRemotePeerlist_quiet rsp.localPeerlist rsp.nodeData.localTime)
        simp only
        cases hpl : n₁.handleRemotePeerlist rsp.localPeerlist rsp.nodeData.localTime with
        | mk ok n₂ =>
          rw [hpl] at hpeers
          cases ok with
          | false => exact .inl ⟨hpeers.trans (n₂.addIpFail_quiet _), nofun⟩
          | true =>
            simp only
            by_cases hjust : justTakePeerlist = true
            · rw [if_pos hjust]
              exact .inl ⟨hpeers, fun _ => hjust⟩
            · rw [if_neg hjust]
              by_cases hproc : ¬ payload.processed = true
              · rw [if_pos hproc]
                exact .inl ⟨hpeers, nofun⟩
              · rw [if_neg hproc]
                refine .inr ⟨not_not.1 hnet, ?_,
                  n₂.setPeerId context.mConnectionId rsp.nodeData.peerId,
                  hpeers.trans (n₂.setPeerId_quiet _ _), ?_⟩
                · split <;> rfl
                · split <;> rfl

/-- The end of the callback of a timed sync: the peer of an outgoing connection was seen. -/
theorem justSeen_cases {n n₁ : NodeServer} (context : P2pConnectionContext) (hq : Quiet n n₁) :
    Quiet n (if ¬ context.mIsIncome then n₁.setPeerJustSeen context.peerId context.remote else n₁) ∨
      context.mIsIncome = false ∧ ∃ n₂, Quiet n n₂ ∧
        (if ¬ context.mIsIncome then n₁.setPeerJustSeen context.peerId context.remote else n₁) =
          n₂.setPeerJustSeen context.peerId context.remote := by
  by_cases hincome : ¬ context.mIsIncome = true
  · rw [if_pos hincome]
    exact .inr ⟨Bool.not_eq_true _ ▸ hincome, n₁, hq, rfl⟩
  · rw [if_neg hincome]
    exact .inl hq

/-- A peer that is asked on a connection of the node's own is put on the white list again. -/
theorem onTimedSyncAnswer_cases (env : Env) (n : NodeServer) (context : P2pConnectionContext)
    (rsp : TimedSyncResponse) :
    Quiet n (n.onTimedSyncAnswer env context rsp) ∨
      context.mIsIncome = false ∧ ∃ n₁, Quiet n n₁ ∧
        n.onTimedSyncAnswer env context rsp = n₁.setPeerJustSeen context.peerId context.remote := by
  unfold onTimedSyncAnswer
  have hentry := handleMaintainersEntry_quiet env n rsp.maintrsEntry
  cases hme : n.handleMaintainersEntry env rsp.maintrsEntry with
  | mk ok n₁ =>
    rw [hme] at hentry
    cases ok with
    | false => exact .inl hentry
    | true =>
      have hpeers := hentry.trans (n₁.handleRemotePeerlist_quiet rsp.localPeerlist rsp.localTime)
      cases hpl : n₁.handleRemotePeerlist rsp.localPeerlist rsp.localTime with
      | mk ok n₂ =>
        rw [hpl] at hpeers
        cases ok with
        | false =>
          simp only [hpl]
          exact justSeen_cases _ ((hpeers.trans (n₂.dropConnection_quiet _)).trans
            (addIpFail_quiet _ _))
        | true =>
          simp only [hpl]
          exact justSeen_cases _ hpeers

/-- The answer to a ping: it is passed over, or the peer goes to the white list. -/
theorem onPingAnswer_cases (n : NodeServer) (ping : Pinging) (rsp : PingResponse) :
    n.onPingAnswer ping rsp = n ∨
      rsp.status = pingOkResponseStatusText ∧ rsp.peerId = ping.pr ∧
        n.onPingAnswer ping rsp = n.appendWhite ping.adr ping.pr := by
  unfold onPingAnswer
  by_cases hwrong : rsp.status ≠ pingOkResponseStatusText ∨ ping.pr ≠ rsp.peerId
  · exact .inl (if_pos hwrong)
  · obtain ⟨hstatus, hpr⟩ := not_or.1 hwrong
    exact .inr ⟨not_not.1 hstatus, (not_not.1 hpr).symm, if_neg hwrong⟩

/-- After a handshake the connection is dropped, or kept with its peer on the white list. -/
theorem afterHandshake_cases (n : NodeServer) (h : Handshaking) (result : Bool × UInt64) :
    n.afterHandshake h result = n.dropConnection h.connectionId ∨
      result.1 = true ∧ h.justTakePeerlist = false ∧
        n.afterHandshake h result = n.appendWhite h.na result.2 := by
  obtain ⟨ok, pi⟩ := result
  cases ok with
  | false => exact .inl rfl
  | true =>
    by_cases hjust : h.justTakePeerlist = true
    · exact .inl (if_pos hjust)
    · exact .inr ⟨rfl, Bool.not_eq_true _ ▸ hjust, if_neg hjust⟩

/-- A connection is accepted quietly, or with a context of its own. -/
theorem acceptConnection_cases {id : Nat} {remote : NetAddress}
    (haccept : n.acceptConnection id remote = some n') :
    Quiet n n' ∨ ∃ n₁, Quiet n n₁ ∧
      n₁.addConnection ⟨id, remote.ip, remote.port, true, 0⟩ = some n' := by
  have hquiet := n.isRemoteIpAllowed_quiet remote.ip
  unfold acceptConnection at haccept
  cases hallowed : n.isRemoteIpAllowed remote.ip with
  | mk ok n₁ =>
    rw [hallowed] at hquiet haccept
    cases ok with
    | false =>
      cases haccept
      exact .inl hquiet
    | true => exact .inr ⟨n₁, hquiet, haccept⟩

end NodeServer

end DarknetSpace.Nodetool
