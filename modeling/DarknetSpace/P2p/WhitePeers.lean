import DarknetSpace.P2p.NodeHandlers

/-!
# Who gets onto the white list

The white list is what a node tells others of, so it matters how a peer gets onto it.
Four calls put an address there: the end of a handshake the node has begun, the two
callbacks in which a peer it has called is seen again, and an answered ping. Each of
them has heard the peer's id from the peer itself, on a connection the node has made.

The proof follows an address and an id backwards through the run. They are `Known` when
they are white, or when a handshake has heard the id and has not ended yet; a step that
makes them known is one in which the peer has spoken (`known_step`). `Wired` is what
this needs of connections and handshakes: a connection's id is zero before its
handshake, and a handshake's connection leads to the address it was made for.
-/

namespace DarknetSpace.Nodetool

open PortableStorage CurrencyProtocol

namespace NodeServer

variable {env : Env} {n n' : NodeServer}

/-! ## Who is white has spoken -/

/-- With the event somebody at the address says who he is, on a connection that the node made: he
answers the handshake or a ping, or a timed sync after the handshake. -/
def Spoke (n : NodeServer) : Event → NetAddress → UInt64 → Prop
  | .handshakeAnswer i rsp _, adr, id =>
    rsp.nodeData.networkId = p2pNetworkId ∧ rsp.nodeData.peerId = id ∧
      ∃ h c, n.handshakes[i]? = some h ∧ n.findContext h.connectionId = some c ∧
        c.mIsIncome = false ∧ (adr = h.na ∨ adr = c.remote)
  | .timedSyncAnswer i _, adr, id =>
    ∃ k c, n.timedSyncs[i]? = some k ∧ n.findContext k = some c ∧ c.mIsIncome = false ∧
      adr = c.remote ∧ id = c.peerId
  | .pingAnswer i rsp, adr, id =>
    rsp.status = pingOkResponseStatusText ∧ rsp.peerId = id ∧
      ∃ ping, n.pings[i]? = some ping ∧ ping.pr = id ∧ adr = ping.adr
  | _, _, _ => False

/-- The white peers, and those that are about to be. -/
def Known (n : NodeServer) (adr : NetAddress) (id : UInt64) : Prop :=
  (∃ e ∈ n.mPeerlist.mPeersWhite.entries, e.adr = adr ∧ e.id = id) ∨
    ∃ h ∈ n.handshakes, h.result = some (true, id) ∧ h.justTakePeerlist = false ∧ h.na = adr

/-- A handshake that is waited for is on a connection that the node made. -/
structure Wired (n : NodeServer) : Prop where
  named : ∀ c ∈ n.mConnects, c.mConnectionId ∈ n.names
  outgoing : ∀ h ∈ n.handshakes, h.connectionId ∈ n.names ∧
    ∀ c ∈ n.mConnects, c.mConnectionId = h.connectionId → c.mIsIncome = false

/-- A quiet step leaves the names in order. -/
theorem Wired.of_quiet (hw : n.Wired) (hq : Quiet n n') : n'.Wired := by
  have hold : ∀ c ∈ n'.mConnects, ∃ c₀ ∈ n.mConnects,
      c₀.mConnectionId = c.mConnectionId ∧ c₀.mIsIncome = c.mIsIncome := by
    intro c hc
    have hmem := List.mem_map_of_mem (f := fun c => (c.mConnectionId, c.remote, c.mIsIncome)) hc
    rw [hq.connects] at hmem
    obtain ⟨c₀, hc₀, heq⟩ := List.mem_map.1 hmem
    exact ⟨c₀, hc₀, congrArg Prod.fst heq, congrArg (fun t => t.2.2) heq⟩
  constructor
  · intro c hc
    obtain ⟨c₀, hc₀, hid, -⟩ := hold c hc
    rw [hq.names, ← hid]
    exact hw.named c₀ hc₀
  · intro h hh
    rw [hq.handshakes] at hh
    obtain ⟨hname, hout⟩ := hw.outgoing h hh
    refine ⟨hq.names ▸ hname, fun c hc hid => ?_⟩
    obtain ⟨c₀, hc₀, hid₀, hincome⟩ := hold c hc
    exact hincome ▸ hout c₀ hc₀ (hid₀.trans hid)

/-- What only touches the lists of peers is wired as before. -/
theorem Wired.of_eq (hw : n.Wired) (hconnects : n'.mConnects = n.mConnects)
    (hnames : n'.names = n.names) (hhandshakes : ∀ h ∈ n'.handshakes, ∃ h₀ ∈ n.handshakes,
      h₀.connectionId = h.connectionId) : n'.Wired := by
  constructor
  · rw [hconnects, hnames]
    exact hw.named
  · intro h hh
    obtain ⟨h₀, hh₀, hid⟩ := hhandshakes h hh
    obtain ⟨hname, hout⟩ := hw.outgoing h₀ hh₀
    rw [hconnects, hnames, ← hid]
    exact ⟨hname, hout⟩

/-- A new connection has a name of its own. -/
theorem Wired.addConnection (hw : n.Wired) {c : P2pConnectionContext}
    (hadd : n.addConnection c = some n') :
    n'.Wired ∧ c.mConnectionId ∈ n'.names ∧ (∀ h ∈ n.handshakes, h.connectionId ≠ c.mConnectionId) ∧
      c.mConnectionId ∉ n.names ∧ n' = { n with
        mConnects := c :: n.mConnects, names := c.mConnectionId :: n.names } := by
  unfold NodeServer.addConnection at hadd
  split at hadd
  · cases hadd
  · rename_i hnew
    cases hadd
    have hfresh : ∀ h ∈ n.handshakes, h.connectionId ≠ c.mConnectionId := fun h hh heq =>
      hnew (heq ▸ (hw.outgoing h hh).1)
    refine ⟨⟨fun c' hc' => ?_, fun h hh => ?_⟩, List.mem_cons_self .., hfresh, hnew, rfl⟩
    · rcases List.mem_cons.1 hc' with rfl | hc'
      · exact List.mem_cons_self ..
      · exact List.mem_cons_of_mem _ (hw.named c' hc')
    · obtain ⟨hname, hout⟩ := hw.outgoing h hh
      refine ⟨List.mem_cons_of_mem _ hname, fun c' hc' hid => ?_⟩
      rcases List.mem_cons.1 hc' with rfl | hc'
      · exact absurd hid.symm (hfresh h hh)
      · exact hout c' hc' hid

theorem Known.of_quiet (hq : Quiet n n') {adr : NetAddress} {id : UInt64} (hk : n'.Known adr id) :
    n.Known adr id := by
  rcases hk with ⟨e, he, hadr⟩ | hhand
  · exact .inl ⟨e, hq.white e he, hadr⟩
  · exact .inr (hq.handshakes ▸ hhand)

/-- An entry of the white list makes its peer known, and no other. -/
theorem Known.of_appendWhite {addr adr : NetAddress} {peer id : UInt64}
    (hk : (n.appendWhite addr peer).Known adr id) : n.Known adr id ∨ adr = addr ∧ id = peer := by
  rcases hk with ⟨e, he, hadr, hid⟩ | hhand
  · have he : e ∈ (n.mPeerlist.appendWithPeerWhite ⟨addr, peer, n.now.toInt⟩).mPeersWhite.entries :=
      he
    by_cases hallowed : n.mPeerlist.isIpAllowed addr.ip = true
    · rw [PeerlistManager.appendWithPeerWhite_allowed hallowed] at he
      rcases Timed.mem_put.1 he with rfl | ⟨he, -⟩
      · exact .inr ⟨hadr.symm, hid.symm⟩
      · exact .inl (.inl ⟨e, he, hadr, hid⟩)
    · rw [PeerlistManager.appendWithPeerWhite_refused hallowed] at he
      exact .inl (.inl ⟨e, he, hadr, hid⟩)
  · exact .inl (.inr hhand)

/-- The result of a handshake is about its own peer. -/
theorem Known.of_setResult {i : Nat} {h : Handshaking} {result : Bool × UInt64} {adr : NetAddress}
    {id : UInt64} (hk : (n.setResult i h result).Known adr id) :
    n.Known adr id ∨ result = (true, id) ∧ h.justTakePeerlist = false ∧ h.na = adr := by
  rcases hk with hwhite | ⟨h', hh', hresult, hjust, hna⟩
  · exact .inl (.inl hwhite)
  · rcases List.mem_or_eq_of_mem_set hh' with hold | rfl
    · exact .inl (.inr ⟨h', hold, hresult, hjust, hna⟩)
    · exact .inr ⟨Option.some.inj hresult, hjust, hna⟩

/-- A handshake that is over makes no peer known. -/
theorem Known.of_fewer {hs : List Handshaking} (hsub : ∀ h ∈ hs, h ∈ n.handshakes)
    {adr : NetAddress} {id : UInt64}
    (hk : ({ n with handshakes := hs } : NodeServer).Known adr id) : n.Known adr id := by
  rcases hk with hwhite | ⟨h, hh, hresult⟩
  · exact .inl hwhite
  · exact .inr ⟨h, hsub h hh, hresult⟩

theorem findContext_some {id : Nat} {c : P2pConnectionContext} (hfind : n.findContext id = some c) :
    c ∈ n.mConnects ∧ c.mConnectionId = id :=
  ⟨List.mem_of_find?_eq_some hfind, by simpa using List.find?_some hfind⟩

theorem Wired.outgoing_of_find (hw : n.Wired) {i : Nat} {h : Handshaking}
    (hh : n.handshakes[i]? = some h) {c : P2pConnectionContext}
    (hfind : n.findContext h.connectionId = some c) : c.mIsIncome = false := by
  obtain ⟨hc, hid⟩ := findContext_some hfind
  exact (hw.outgoing h (List.mem_of_getElem? hh)).2 c hc hid

/-- A peer that is known after a step was known before, or has spoken in it: one case for each
event. -/
theorem known_step {ev : Event} (hw : n.Wired) (hstep : step env ev n = some n') {adr : NetAddress}
    {id : UInt64} (hk : n'.Known adr id) : n.Known adr id ∨ Spoke n ev adr id := by
  cases ev with
  | tick now =>
    cases hstep
    exact .inl hk
  | accept k remote =>
    rcases acceptConnection_cases hstep with hquiet | ⟨n₁, hquiet, hadd⟩
    · exact .inl (hk.of_quiet hquiet)
    · obtain ⟨-, -, -, -, rfl⟩ := (hw.of_quiet hquiet).addConnection hadd
      exact .inl (Known.of_quiet hquiet hk)
  | closed k =>
    cases hstep
    exact .inl hk
  | handshakeRequest k arg payload =>
    obtain ⟨context, -, hstep⟩ := Option.bind_eq_some_iff.1 hstep
    cases hstep
    exact .inl (Known.of_quiet (handleHandshake_quiet env n arg context payload) hk)
  | timedSyncRequest k arg payload =>
    obtain ⟨context, -, hstep⟩ := Option.bind_eq_some_iff.1 hstep
    cases hstep
    exact .inl (Known.of_quiet (handleTimedSync_quiet env n arg context payload) hk)
  | trustRequest k tr =>
    cases hstep
    exact .inl (hk.of_quiet (onTrustRequest_quiet env n k tr))
  | connect k na remote justTakePeerlist =>
    obtain ⟨n₁, hadd, hstep⟩ := Option.bind_eq_some_iff.1 hstep
    obtain ⟨-, -, -, -, rfl⟩ := hw.addConnection hadd
    cases hstep
    rcases hk with hwhite | ⟨h, hh, hresult, hjust⟩
    · exact .inl (.inl hwhite)
    · rcases List.mem_append.1 hh with hh | hh
      · exact .inl (.inr ⟨h, hh, hresult, hjust⟩)
      -- the new handshake has no result yet
      · rw [List.mem_singleton.1 hh] at hresult
        cases hresult
  | handshakeAnswer i rsp payload =>
    obtain ⟨h, hh, hstep⟩ := Option.bind_eq_some_iff.1 hstep
    split at hstep
    · cases hstep
    · obtain ⟨context, hfind, hstep⟩ := Option.bind_eq_some_iff.1 hstep
      cases hstep
      -- the context the answer is written to is one we opened, whoever answers
      have hout := hw.outgoing_of_find hh hfind
      rcases onHandshakeAnswer_cases env n context h.justTakePeerlist rsp payload with
        ⟨hquiet, hresult⟩ | ⟨hnet, hpi, n₁, hquiet, hseen⟩
      · rcases hk.of_setResult with hk | ⟨hr, hjust, -⟩
        · exact .inl (hk.of_quiet hquiet)
        · rw [hr, hjust] at hresult
          exact absurd (hresult rfl) Bool.false_ne_true
      · rcases hk.of_setResult with hk | ⟨hr, -, hna⟩
        · rw [hseen] at hk
          rcases Known.of_appendWhite hk with hk | ⟨hadr, hid⟩
          · exact .inl (hk.of_quiet hquiet)
          · exact .inr ⟨hnet, hid.symm, h, context, hh, hfind, hout, .inr hadr⟩
        · rw [hr] at hpi
          exact .inr ⟨hnet, hpi.symm, h, context, hh, hfind, hout, .inl hna.symm⟩
  | handshakeFails i =>
    obtain ⟨h, hh, hstep⟩ := Option.bind_eq_some_iff.1 hstep
    split at hstep
    · cases hstep
    · cases hstep
      rcases hk.of_setResult with hk | ⟨hr, -⟩
      · exact .inl hk
      · cases hr
  | handshakeDone i =>
    obtain ⟨h, hh, hstep⟩ := Option.bind_eq_some_iff.1 hstep
    obtain ⟨result, hresult, hstep⟩ := Option.bind_eq_some_iff.1 hstep
    cases hstep
    have hmem := List.mem_of_getElem? hh
    rcases afterHandshake_cases { n with handshakes := n.handshakes.eraseIdx i } h result with
      hdrop | ⟨hok, hjust, hwhite⟩
    · rw [hdrop] at hk
      exact .inl (Known.of_fewer (fun _ h => List.mem_of_mem_eraseIdx h)
        (Known.of_quiet (dropConnection_quiet _ _) hk))
    · rw [hwhite] at hk
      rcases Known.of_appendWhite hk with hk | ⟨hadr, hid⟩
      · exact .inl (Known.of_fewer (fun _ h => List.mem_of_mem_eraseIdx h) hk)
      -- the peer spoke when its answer came; here the result it left is acted upon
      · refine .inl (.inr ⟨h, hmem, ?_, hjust, hadr.symm⟩)
        rw [hresult, hid, ← hok]
  | peerSyncIdleMaker =>
    cases hstep
    exact .inl hk
  | timedSyncAnswer i rsp =>
    obtain ⟨k, hk', hstep⟩ := Option.bind_eq_some_iff.1 hstep
    obtain ⟨context, hfind, hstep⟩ := Option.bind_eq_some_iff.1 hstep
    cases hstep
    rcases onTimedSyncAnswer_cases env { n with timedSyncs := n.timedSyncs.eraseIdx i } context rsp
      with hquiet | ⟨hout, n₁, hquiet, hseen⟩
    · exact .inl (Known.of_quiet hquiet hk)
    · rw [hseen] at hk
      rcases Known.of_appendWhite hk with hk | ⟨hadr, hid⟩
      · exact .inl (Known.of_quiet hquiet hk)
      · exact .inr ⟨k, context, hk', hfind, hout, hadr, hid⟩
  | timedSyncFails i =>
    cases hstep
    exact .inl hk
  | pingAnswer i rsp =>
    obtain ⟨ping, hping, hstep⟩ := Option.bind_eq_some_iff.1 hstep
    cases hstep
    rcases onPingAnswer_cases { n with pings := n.pings.eraseIdx i } ping rsp with
      hsame | ⟨hstatus, hpr, hwhite⟩
    · rw [hsame] at hk
      exact .inl hk
    · rw [hwhite] at hk
      rcases Known.of_appendWhite hk with hk | ⟨hadr, hid⟩
      · exact .inl hk
      · exact .inr ⟨hstatus, hpr.trans hid.symm, ping, hping, hid.symm, hadr⟩
  | pingFails i =>
    cases hstep
    exact .inl hk
  | ipFail address =>
    cases hstep
    exact .inl (Known.of_quiet (n.addIpFail_quiet address) hk)
  | setMaintainersInfo req =>
    cases hstep
    exact .inl (Known.of_quiet (handleMaintainersEntry_quiet env n req) hk)

theorem Wired.appendWhite (hw : n.Wired) (addr : NetAddress) (peer : UInt64) :
    (n.appendWhite addr peer).Wired :=
  hw.of_eq rfl rfl fun h hh => ⟨h, hh, rfl⟩

/-- A result leaves the names of the handshake. -/
theorem Wired.setResult (hw : n.Wired) {i : Nat} {h : Handshaking}
    (hh : ∃ h₀ ∈ n.handshakes, h₀.connectionId = h.connectionId) (result : Bool × UInt64) :
    (n.setResult i h result).Wired := by
  refine hw.of_eq rfl rfl fun h' hh' => ?_
  rcases List.mem_or_eq_of_mem_set hh' with hold | rfl
  · exact ⟨h', hold, rfl⟩
  · exact hh

theorem Wired.fewer (hw : n.Wired) (i : Nat) :
    ({ n with handshakes := n.handshakes.eraseIdx i } : NodeServer).Wired :=
  hw.of_eq rfl rfl fun h hh => ⟨h, List.mem_of_mem_eraseIdx hh, rfl⟩

/-- Every event keeps the names in order. -/
theorem Wired.step {ev : Event} (hw : n.Wired) (hstep : step env ev n = some n') : n'.Wired := by
  cases ev with
  | tick now =>
    cases hstep
    exact ⟨hw.named, hw.outgoing⟩
  | accept k remote =>
    rcases acceptConnection_cases hstep with hquiet | ⟨n₁, hquiet, hadd⟩
    · exact hw.of_quiet hquiet
    · exact ((hw.of_quiet hquiet).addConnection hadd).1
  | closed k =>
    cases hstep
    -- the names that were given out stay given out
    refine ⟨fun c hc => hw.named c (List.mem_of_mem_filter hc), fun h hh => ?_⟩
    obtain ⟨hname, hout⟩ := hw.outgoing h hh
    exact ⟨hname, fun c hc => hout c (List.mem_of_mem_filter hc)⟩
  | handshakeRequest k arg payload =>
    obtain ⟨context, -, hstep⟩ := Option.bind_eq_some_iff.1 hstep
    cases hstep
    exact hw.of_quiet (handleHandshake_quiet env n arg context payload)
  | timedSyncRequest k arg payload =>
    obtain ⟨context, -, hstep⟩ := Option.bind_eq_some_iff.1 hstep
    cases hstep
    exact hw.of_quiet (handleTimedSync_quiet env n arg context payload)
  | trustRequest k tr =>
    cases hstep
    exact hw.of_quiet (onTrustRequest_quiet env n k tr)
  | connect k na remote justTakePeerlist =>
    obtain ⟨n₁, hadd, hstep⟩ := Option.bind_eq_some_iff.1 hstep
    obtain ⟨hw₁, hname, hfresh, hnew, rfl⟩ := hw.addConnection hadd
    cases hstep
    refine ⟨hw₁.named, fun h hh => ?_⟩
    rcases List.mem_append.1 hh with hh | hh
    · exact hw₁.outgoing h hh
    · -- the only connection of that name is the new one
      rw [List.mem_singleton.1 hh]
      refine ⟨hname, fun c hc hid => ?_⟩
      rcases List.mem_cons.1 hc with rfl | hc
      · rfl
      · have hk : c.mConnectionId = k := hid
        exact absurd (hk ▸ hw.named c hc) hnew
  | handshakeAnswer i rsp payload =>
    obtain ⟨h, hh, hstep⟩ := Option.bind_eq_some_iff.1 hstep
    split at hstep
    · cases hstep
    · obtain ⟨context, -, hstep⟩ := Option.bind_eq_some_iff.1 hstep
      cases hstep
      have hmem := List.mem_of_getElem? hh
      rcases onHandshakeAnswer_cases env n context h.justTakePeerlist rsp payload with
        ⟨hquiet, -⟩ | ⟨-, -, n₁, hquiet, hseen⟩
      · exact (hw.of_quiet hquiet).setResult ⟨h, hquiet.handshakes ▸ hmem, rfl⟩ _
      · have hw₁ := (hw.of_quiet hquiet).appendWhite context.remote rsp.nodeData.peerId
        rw [hseen]
        exact Wired.setResult hw₁ ⟨h, (congrArg (h ∈ ·) hquiet.handshakes).mpr hmem, rfl⟩ _
  | handshakeFails i =>
    obtain ⟨h, hh, hstep⟩ := Option.bind_eq_some_iff.1 hstep
    split at hstep
    · cases hstep
    · cases hstep
      exact hw.setResult ⟨h, List.mem_of_getElem? hh, rfl⟩ _
  | handshakeDone i =>
    obtain ⟨h, hh, hstep⟩ := Option.bind_eq_some_iff.1 hstep
    obtain ⟨result, -, hstep⟩ := Option.bind_eq_some_iff.1 hstep
    cases hstep
    rcases afterHandshake_cases { n with handshakes := n.handshakes.eraseIdx i } h result with
      hdrop | ⟨-, -, hwhite⟩
    · rw [hdrop]
      exact (hw.fewer i).of_quiet (dropConnection_quiet _ _)
    · rw [hwhite]
      exact (hw.fewer i).appendWhite _ _
  | peerSyncIdleMaker =>
    cases hstep
    exact ⟨hw.named, hw.outgoing⟩
  | timedSyncAnswer i rsp =>
    obtain ⟨k, -, hstep⟩ := Option.bind_eq_some_iff.1 hstep
    obtain ⟨context, -, hstep⟩ := Option.bind_eq_some_iff.1 hstep
    cases hstep
    have hw' : ({ n with timedSyncs := n.timedSyncs.eraseIdx i } : NodeServer).Wired :=
      ⟨hw.named, hw.outgoing⟩
    rcases onTimedSyncAnswer_cases env { n with timedSyncs := n.timedSyncs.eraseIdx i } context rsp
      with hquiet | ⟨-, n₁, hquiet, hseen⟩
    · exact hw'.of_quiet hquiet
    · rw [hseen]
      exact (hw'.of_quiet hquiet).appendWhite _ _
  | timedSyncFails i =>
    cases hstep
    exact ⟨hw.named, hw.outgoing⟩
  | pingAnswer i rsp =>
    obtain ⟨ping, -, hstep⟩ := Option.bind_eq_some_iff.1 hstep
    cases hstep
    have hw' : ({ n with pings := n.pings.eraseIdx i } : NodeServer).Wired :=
      ⟨hw.named, hw.outgoing⟩
    rcases onPingAnswer_cases { n with pings := n.pings.eraseIdx i } ping rsp with
      hsame | ⟨-, -, hwhite⟩
    · rw [hsame]
      exact hw'
    · rw [hwhite]
      exact hw'.appendWhite _ _
  | pingFails i =>
    cases hstep
    exact ⟨hw.named, hw.outgoing⟩
  | ipFail address =>
    cases hstep
    exact hw.of_quiet (n.addIpFail_quiet address)
  | setMaintainersInfo req =>
    cases hstep
    exact hw.of_quiet (handleMaintainersEntry_quiet env n req)

/-! ## Along a run -/

/-- A fresh node has no names. -/
theorem Fresh.wired (h : n.Fresh) : n.Wired := by
  constructor
  · rw [h.connects]
    exact fun c hc => absurd hc List.not_mem_nil
  · rw [h.handshakes]
    exact fun h hh => absurd hh List.not_mem_nil

/-- Every white entry is one that the node began with, or somebody who has said at that address,
to the node that called him, who he is. What peers say of each other makes nobody white. -/
theorem white_has_spoken {env : Env} {n₀ n : NodeServer} {es : List Event} (h₀ : n₀.Fresh)
    (hrun : Runs.run (step env) es n₀ = some n) {e : PeerlistEntry}
    (he : e ∈ n.mPeerlist.mPeersWhite.entries) :
    (∃ e₀ ∈ n₀.mPeerlist.mPeersWhite.entries, e₀.adr = e.adr ∧ e₀.id = e.id) ∨
      ∃ es₁ ev es₂ n₁, es = es₁ ++ ev :: es₂ ∧ Runs.run (step env) es₁ n₀ = some n₁ ∧
        n₁.Spoke ev e.adr e.id := by
  have horigin := Runs.run_origin (f := fun n (x : NetAddress × UInt64) => n.Known x.1 x.2)
    (O := fun n ev x => n.Spoke ev x.1 x.2) (I := Wired)
    (fun ev s s' hs hstep => hs.step hstep) (fun ev s s' x hs hstep hk => known_step hs hstep hk)
    h₀.wired hrun (x := (e.adr, e.id)) (.inl ⟨e, he, rfl, rfl⟩)
  rcases horigin with hk | hspoke
  · rcases hk with hwhite | ⟨h, hh, -⟩
    · exact .inl hwhite
    · rw [h₀.handshakes] at hh
      exact absurd hh List.not_mem_nil
  · exact .inr hspoke

theorem white_has_spoken_afterCall :
    ∃ es₁ ev es₂ n₁, callOfTwo = es₁ ++ ev :: es₂ ∧
      Runs.run (step trusting) es₁ alone = some n₁ ∧ n₁.Spoke ev ⟨9, 80⟩ 2 := by
  have hwhite : (⟨⟨9, 80⟩, 2, 1000⟩ : PeerlistEntry) ∈ afterCall.mPeerlist.mPeersWhite.entries := by
    decide +kernel
  rcases white_has_spoken alone_fresh callOfTwo_runs hwhite with ⟨e₀, he₀, -⟩ | hspoke
  · exact absurd he₀ List.not_mem_nil
  · exact hspoke

end NodeServer

end DarknetSpace.Nodetool
