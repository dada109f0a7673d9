import DarknetSpace.P2p.Peerlist

/-!
# How long the lists of peers get (`p2p/net_peerlist.h`)

With the bodies of `trim_white_peerlist` and `trim_gray_peerlist` exchanged an
append that makes a list too long leaves it too long. As long as both lists are
within their limits no trimming does anything, and so a run stays within them
exactly if every call finds room for what it brings. That trimming takes nothing but
the oldest, and only of a list that is too long, holds all the same.

The first half is about what is dropped, call by call: whoever is missing after a call
was the oldest entry of its list, which was over its limit, or was moved to the other
list. The second is about sizes. `Room` says of a call and the lists before it that what
it brings fits, and `bounded_iff_room` puts both together for runs. The last section
floods the white list with entries of its own.
-/

namespace DarknetSpace

namespace PeerlistManager

structure Bounded (m : PeerlistManager) : Prop where
  white : m.mPeersWhite.size ≤ p2pLocalWhitePeerlistLimit
  gray : m.mPeersGray.size ≤ p2pLocalGrayPeerlistLimit

/-- The addresses of a list that would be new to the gray list. -/
def newGray (m : PeerlistManager) (outerBs : List PeerlistEntry) : Finset NetAddress :=
  (outerBs.map PeerlistEntry.adr).toFinset.filter fun adr =>
    m.isIpAllowed adr.ip = true ∧ adr ∉ m.mPeersWhite.keys ∧ adr ∉ m.mPeersGray.keys

/-- There is room in the white list for an address, if it takes any. -/
def RoomWhite (m : PeerlistManager) (adr : NetAddress) : Prop :=
  m.isIpAllowed adr.ip = true → adr ∉ m.mPeersWhite.keys →
    m.mPeersWhite.size < p2pLocalWhitePeerlistLimit

/-- There is room for what a call brings. -/
def Room (m : PeerlistManager) : Call → Prop
  | .appendWithPeerWhite ple => m.RoomWhite ple.adr
  | .setPeerJustSeen _ addr _ => m.RoomWhite addr
  | .appendWithPeerGray ple => m.mPeersGray.size + (m.newGray [ple]).card ≤ p2pLocalGrayPeerlistLimit
  | .mergePeerlist outerBs =>
    m.mPeersGray.size + (m.newGray outerBs).card ≤ p2pLocalGrayPeerlistLimit

/-- The peer a call makes white. -/
def Call.madeWhite : Call → Option NetAddress
  | .appendWithPeerWhite ple => some ple.adr
  | .setPeerJustSeen _ addr _ => some addr
  | .appendWithPeerGray _ | .mergePeerlist _ => none

/-- A call drops an address from a list only if the list was too long before the
call, and the entry among the oldest it had too many of; but a gray peer that the
call makes white leaves the gray list for the white one. -/
structure DropsOldest (m : PeerlistManager) (c : Call) : Prop where
  white : ∀ e ∈ m.mPeersWhite.entries, e.adr ∈ (m.call c).mPeersWhite.keys ∨
    p2pLocalWhitePeerlistLimit < m.mPeersWhite.size ∧
      e ∈ m.mPeersWhite.entries.take (m.mPeersWhite.size - p2pLocalWhitePeerlistLimit)
  gray : ∀ e ∈ m.mPeersGray.entries, e.adr ∈ (m.call c).mPeersGray.keys ∨
    c.madeWhite = some e.adr ∧ e.adr ∈ (m.call c).mPeersWhite.keys ∨
    p2pLocalGrayPeerlistLimit < m.mPeersGray.size ∧
      e ∈ m.mPeersGray.entries.take (m.mPeersGray.size - p2pLocalGrayPeerlistLimit)

/-! ## What is dropped -/

theorem appendWithPeerWhite_keeps_white (m : PeerlistManager) (ple : PeerlistEntry)
    {adr : NetAddress} (h : adr ∈ m.mPeersWhite.keys) :
    adr ∈ (m.appendWithPeerWhite ple).mPeersWhite.keys := by
  by_cases hallowed : m.isIpAllowed ple.adr.ip = true
  · rw [appendWithPeerWhite_allowed hallowed]
    exact Timed.mem_keys_put.2 (.inr h)
  · rw [appendWithPeerWhite_refused hallowed]
    exact h

/-- The gray list loses the peer that has become white, and what it has too many
of. -/
theorem appendWithPeerWhite_gray (m : PeerlistManager) (ple : PeerlistEntry) {e : PeerlistEntry}
    (he : e ∈ m.mPeersGray.entries) :
    e.adr ∈ (m.appendWithPeerWhite ple).mPeersGray.keys ∨
      some ple.adr = some e.adr ∧ e.adr ∈ (m.appendWithPeerWhite ple).mPeersWhite.keys ∨
      p2pLocalGrayPeerlistLimit < m.mPeersGray.size ∧
        e ∈ m.mPeersGray.entries.take (m.mPeersGray.size - p2pLocalGrayPeerlistLimit) := by
  by_cases hallowed : m.isIpAllowed ple.adr.ip = true
  · rw [appendWithPeerWhite_allowed hallowed]
    by_cases hsame : e.adr = ple.adr
    · exact .inr (.inl ⟨congrArg some hsame.symm, Timed.mem_keys_put.2 (.inl hsame)⟩)
    · -- the trimming comes first, then the peer is erased
      have htrimmed : e ∈ (if ple.adr ∈ m.mPeersWhite.keys then m.mPeersGray
          else m.mPeersGray.trim p2pLocalGrayPeerlistLimit).entries ∨
          p2pLocalGrayPeerlistLimit < m.mPeersGray.size ∧
            e ∈ m.mPeersGray.entries.take (m.mPeersGray.size - p2pLocalGrayPeerlistLimit) := by
        by_cases hwhite : ple.adr ∈ m.mPeersWhite.keys
        · rw [if_pos hwhite]
          exact .inl he
        · rw [if_neg hwhite]
          exact Timed.mem_trim_or he
      rcases htrimmed with hkept | hold
      · exact .inl (Timed.mem_keys.2 ⟨e, Timed.mem_eraseKey.2 ⟨hkept, hsame⟩, rfl⟩)
      · exact .inr (.inr hold)
  · rw [appendWithPeerWhite_refused hallowed]
    exact .inl (Timed.mem_keys.2 ⟨e, he, rfl⟩)

theorem appendWithPeerGray_keeps_gray (m : PeerlistManager) (ple : PeerlistEntry)
    {adr : NetAddress} (h : adr ∈ m.mPeersGray.keys) :
    adr ∈ (m.appendWithPeerGray ple).mPeersGray.keys := by
  by_cases htaken : m.isIpAllowed ple.adr.ip = true ∧ ple.adr ∉ m.mPeersWhite.keys
  · rw [appendWithPeerGray_taken htaken.1 htaken.2]
    exact Timed.mem_keys_put.2 (.inr h)
  · rw [appendWithPeerGray_refused htaken]
    exact h

theorem foldl_appendWithPeerGray_keeps_gray (m : PeerlistManager) (outerBs : List PeerlistEntry)
    {adr : NetAddress} (h : adr ∈ m.mPeersGray.keys) :
    adr ∈ (outerBs.foldl appendWithPeerGray m).mPeersGray.keys := by
  induction outerBs generalizing m with
  | nil => exact h
  | cons be rest ih => exact ih _ (m.appendWithPeerGray_keeps_gray be h)

/-- Gray appends leave the white list alone or trim it; trimming it once more
changes nothing. -/
theorem foldl_appendWithPeerGray_white (m : PeerlistManager) (outerBs : List PeerlistEntry) :
    (outerBs.foldl appendWithPeerGray m).mPeersWhite = m.mPeersWhite ∨
      (outerBs.foldl appendWithPeerGray m).mPeersWhite =
        m.mPeersWhite.trim p2pLocalWhitePeerlistLimit := by
  induction outerBs generalizing m with
  | nil => exact .inl rfl
  | cons be rest ih =>
    rw [List.foldl_cons]
    rcases m.appendWithPeerGray_white be with hsame | htrim
    · rw [← hsame]
      exact ih _
    · refine .inr ?_
      rcases ih (m.appendWithPeerGray be) with hrest | hrest
      · rw [hrest, htrim]
      · rw [hrest, htrim, Timed.trim_of_le (Timed.size_trim_le _ _)]

theorem mergePeerlist_white (m : PeerlistManager) (outerBs : List PeerlistEntry) :
    (m.mergePeerlist outerBs).mPeersWhite = m.mPeersWhite.trim p2pLocalWhitePeerlistLimit := by
  show (outerBs.foldl appendWithPeerGray m).mPeersWhite.trim _ = _
  rcases m.foldl_appendWithPeerGray_white outerBs with hsame | htrim
  · rw [hsame]
  · rw [htrim, Timed.trim_of_le (Timed.size_trim_le _ _)]

theorem dropsOldest (m : PeerlistManager) (c : Call) : m.DropsOldest c := by
  have hkey : ∀ {p : PeersIndexed} {e : PeerlistEntry}, e ∈ p.entries → e.adr ∈ p.keys :=
    fun he => Timed.mem_keys.2 ⟨_, he, rfl⟩
  have htrim : ∀ {p : PeersIndexed}, p = m.mPeersWhite.trim p2pLocalWhitePeerlistLimit →
      ∀ e ∈ m.mPeersWhite.entries, e.adr ∈ p.keys ∨ p2pLocalWhitePeerlistLimit < m.mPeersWhite.size ∧
        e ∈ m.mPeersWhite.entries.take (m.mPeersWhite.size - p2pLocalWhitePeerlistLimit) := by
    intro p hp e he
    rw [hp]
    exact (Timed.mem_trim_or he).imp_left hkey
  cases c with
  | appendWithPeerWhite ple =>
    exact ⟨fun e he => .inl (m.appendWithPeerWhite_keeps_white ple (hkey he)),
      fun e he => m.appendWithPeerWhite_gray ple he⟩
  | setPeerJustSeen peer addr now =>
    exact ⟨fun e he => .inl (m.appendWithPeerWhite_keeps_white _ (hkey he)),
      fun e he => m.appendWithPeerWhite_gray ⟨addr, peer, now⟩ he⟩
  | appendWithPeerGray ple =>
    refine ⟨?_, fun e he => .inl (m.appendWithPeerGray_keeps_gray ple (hkey he))⟩
    rcases m.appendWithPeerGray_white ple with hsame | hwhite
    · intro e he
      refine .inl (hkey ?_)
      show e ∈ (m.appendWithPeerGray ple).mPeersWhite.entries
      rw [hsame]
      exact he
    · exact htrim hwhite
  | mergePeerlist outerBs =>
    exact ⟨htrim (m.mergePeerlist_white outerBs),
      fun e he => .inl (m.foldl_appendWithPeerGray_keeps_gray outerBs (hkey he))⟩

/-! ## Sizes -/

theorem size_eraseKey_le (p : PeersIndexed) (adr : NetAddress) : (p.eraseKey adr).size ≤ p.size :=
  List.length_filter_le _ _

/-- A white append stays within the limits exactly if there is room. -/
theorem Bounded.appendWithPeerWhite_iff {m : PeerlistManager} (h : m.Bounded) (ple : PeerlistEntry) :
    (m.appendWithPeerWhite ple).Bounded ↔ m.RoomWhite ple.adr := by
  by_cases hallowed : m.isIpAllowed ple.adr.ip = true
  · rw [appendWithPeerWhite_allowed hallowed, Timed.trim_of_le h.gray, ite_self]
    have hsize := m.mPeersWhite.size_put ple
    by_cases hwhite : ple.adr ∈ m.mPeersWhite.keys
    · rw [if_pos hwhite] at hsize
      refine ⟨fun _ _ hnot => absurd hwhite hnot, fun _ => ⟨?_, ?_⟩⟩
      · rw [hsize]
        exact h.white
      · exact (size_eraseKey_le _ _).trans h.gray
    · rw [if_neg hwhite] at hsize
      constructor
      · intro hbounded _ _
        have := hbounded.white
        rw [hsize] at this
        exact this
      · intro hroom
        refine ⟨?_, (size_eraseKey_le _ _).trans h.gray⟩
        rw [hsize]
        exact hroom hallowed hwhite
  · rw [appendWithPeerWhite_refused hallowed]
    exact ⟨fun _ hyes => absurd hyes hallowed, fun _ => h⟩

theorem mem_newGray {m : PeerlistManager} {outerBs : List PeerlistEntry} {adr : NetAddress} :
    adr ∈ m.newGray outerBs ↔ (∃ e ∈ outerBs, e.adr = adr) ∧ m.isIpAllowed adr.ip = true ∧
      adr ∉ m.mPeersWhite.keys ∧ adr ∉ m.mPeersGray.keys := by
  unfold newGray
  rw [Finset.mem_filter, List.mem_toFinset, List.mem_map]

/-- An entry whose address is not new brings nothing new. -/
theorem newGray_cons_old {m : PeerlistManager} {be : PeerlistEntry} {rest : List PeerlistEntry}
    (hold : m.isIpAllowed be.adr.ip = true → be.adr ∉ m.mPeersWhite.keys →
      be.adr ∈ m.mPeersGray.keys) :
    m.newGray (be :: rest) = m.newGray rest := by
  ext adr
  rw [mem_newGray, mem_newGray]
  refine and_congr_left fun hadr => ?_
  constructor
  · rintro ⟨e, he, rfl⟩
    rcases List.mem_cons.1 he with rfl | he
    · exact absurd (hold hadr.1 hadr.2.1) hadr.2.2
    · exact ⟨e, he, rfl⟩
  · rintro ⟨e, he, rfl⟩
    exact ⟨e, List.mem_cons_of_mem _ he, rfl⟩

/-- A new address is listed once its entry has been put in. -/
theorem newGray_cons_new {m : PeerlistManager} {be : PeerlistEntry} {rest : List PeerlistEntry}
    (hallowed : m.isIpAllowed be.adr.ip = true) (hwhite : be.adr ∉ m.mPeersWhite.keys)
    (hgray : be.adr ∉ m.mPeersGray.keys) :
    m.newGray (be :: rest) =
      insert be.adr (newGray { m with mPeersGray := m.mPeersGray.put be } rest) := by
  ext adr
  rw [Finset.mem_insert, mem_newGray, mem_newGray]
  constructor
  · rintro ⟨⟨e, he, rfl⟩, heAllowed, heWhite, heGray⟩
    by_cases heq : e.adr = be.adr
    · exact .inl heq
    · rcases List.mem_cons.1 he with rfl | he
      · exact absurd rfl heq
      · refine .inr ⟨⟨e, he, rfl⟩, heAllowed, heWhite, fun hput => ?_⟩
        rcases Timed.mem_keys_put.1 hput with hsame | hin
        · exact heq hsame
        · exact heGray hin
  · rintro (rfl | ⟨⟨e, he, rfl⟩, heAllowed, heWhite, heGray⟩)
    · exact ⟨⟨be, List.mem_cons_self, rfl⟩, hallowed, hwhite, hgray⟩
    · exact ⟨⟨e, List.mem_cons_of_mem _ he, rfl⟩, heAllowed, heWhite,
        fun hin => heGray (Timed.mem_keys_put.2 (.inr hin))⟩

/-- Gray appends within the limit of the white list leave that list as it is, and
bring the addresses that are new. -/
theorem foldl_appendWithPeerGray {m : PeerlistManager}
    (hwhite : m.mPeersWhite.size ≤ p2pLocalWhitePeerlistLimit) (outerBs : List PeerlistEntry) :
    (outerBs.foldl appendWithPeerGray m).mPeersWhite = m.mPeersWhite ∧
    (outerBs.foldl appendWithPeerGray m).mPeersGray.size =
      m.mPeersGray.size + (m.newGray outerBs).card := by
  induction outerBs generalizing m with
  | nil => exact ⟨rfl, rfl⟩
  | cons be rest ih =>
    rw [List.foldl_cons]
    by_cases htaken : m.isIpAllowed be.adr.ip = true ∧ be.adr ∉ m.mPeersWhite.keys
    · have hnext : m.appendWithPeerGray be = { m with mPeersGray := m.mPeersGray.put be } := by
        rw [appendWithPeerGray_taken htaken.1 htaken.2, Timed.trim_of_le hwhite, ite_self]
      rw [hnext]
      obtain ⟨hsame, hsize⟩ := ih (m := { m with mPeersGray := m.mPeersGray.put be }) hwhite
      refine ⟨hsame, ?_⟩
      rw [hsize]
      show (m.mPeersGray.put be).size + _ = _
      rw [Timed.size_put]
      by_cases hgray : be.adr ∈ m.mPeersGray.keys
      · -- the address is listed: the entry takes the place of the old one
        have hrest : newGray { m with mPeersGray := m.mPeersGray.put be } rest = m.newGray rest := by
          ext adr
          rw [mem_newGray, mem_newGray]
          refine and_congr_right fun _ => and_congr_right fun _ => and_congr_right fun _ => ?_
          refine not_congr (Timed.mem_keys_put.trans ⟨?_, .inr⟩)
          rintro (rfl | hadr)
          · exact hgray
          · exact hadr
        rw [if_pos hgray, hrest, newGray_cons_old fun _ _ => hgray]
      · have hcons : m.newGray (be :: rest) = insert be.adr _ :=
          newGray_cons_new htaken.1 htaken.2 hgray
        have hnot : be.adr ∉ newGray { m with mPeersGray := m.mPeersGray.put be } rest :=
          fun hmem => (mem_newGray.1 hmem).2.2.2 (Timed.mem_keys_put.2 (.inl rfl))
        rw [if_neg hgray, hcons, Finset.card_insert_of_notMem hnot]
        omega
    · rw [appendWithPeerGray_refused htaken, newGray_cons_old fun hallowed hnot =>
        absurd ⟨hallowed, hnot⟩ htaken]
      exact ih hwhite

/-- Within the limits a call stays there exactly if there is room for what it
brings. -/
theorem Bounded.call_iff {m : PeerlistManager} (h : m.Bounded) (c : Call) :
    (m.call c).Bounded ↔ m.Room c := by
  have hgray : ∀ m' : PeerlistManager, m'.mPeersWhite = m.mPeersWhite → ∀ n,
      m'.mPeersGray.size = m.mPeersGray.size + n →
      (m'.Bounded ↔ m.mPeersGray.size + n ≤ p2pLocalGrayPeerlistLimit) := by
    intro m' hsame n hsize
    rw [← hsize]
    refine ⟨fun hbounded => hbounded.gray, fun hroom => ⟨?_, hroom⟩⟩
    rw [hsame]
    exact h.white
  cases c with
  | appendWithPeerWhite ple => exact h.appendWithPeerWhite_iff ple
  | setPeerJustSeen peer addr now => exact h.appendWithPeerWhite_iff ⟨addr, peer, now⟩
  | appendWithPeerGray ple =>
    obtain ⟨hsame, hsize⟩ := foldl_appendWithPeerGray h.white [ple]
    exact hgray _ hsame _ hsize
  | mergePeerlist outerBs =>
    obtain ⟨hsame, hsize⟩ := foldl_appendWithPeerGray h.white outerBs
    refine hgray _ ?_ _ hsize
    show (outerBs.foldl appendWithPeerGray m).mPeersWhite.trim _ = _
    rw [hsame, Timed.trim_of_le h.white]

/-! ## Runs -/

theorem calls_take_succ (m : PeerlistManager) {cs : List Call} {n : Nat} {c : Call}
    (hc : cs[n]? = some c) : m.calls (cs.take (n + 1)) = (m.calls (cs.take n)).call c := by
  obtain ⟨hn, rfl⟩ := List.getElem?_eq_some_iff.1 hc
  unfold calls
  rw [List.take_succ_eq_append_getElem hn, List.foldl_append]
  rfl

/-- No call of a run drops anything but the oldest of a list that was too long; and
through the run both lists stay within their limits exactly if every call finds room
for what it brings. -/
theorem bounded_iff_room (allowLocalIp : Bool) (cs : List Call) :
    (∀ n c, cs[n]? = some c → ((init allowLocalIp).calls (cs.take n)).DropsOldest c) ∧
      ((∀ n, ((init allowLocalIp).calls (cs.take n)).Bounded) ↔
        ∀ n c, cs[n]? = some c → ((init allowLocalIp).calls (cs.take n)).Room c) := by
  refine ⟨fun n c _ => dropsOldest _ c, ?_⟩
  constructor
  · intro hbounded n c hc
    have hnext := hbounded (n + 1)
    rw [calls_take_succ _ hc] at hnext
    exact ((hbounded n).call_iff c).1 hnext
  · intro hroom n
    induction n with
    | zero => exact ⟨Nat.zero_le _, Nat.zero_le _⟩
    | succ n ih =>
      by_cases hn : n < cs.length
      · have hc : cs[n]? = some cs[n] := List.getElem?_eq_getElem hn
        rw [calls_take_succ _ hc]
        exact (ih.call_iff _).2 (hroom n _ hc)
      · -- past the end of the run nothing happens any more
        have hend := Nat.not_lt.1 hn
        rw [List.take_of_length_le hend] at ih
        rw [List.take_of_length_le (Nat.le_succ_of_le hend)]
        exact ih

end PeerlistManager

/-! ## A flood -/

/-- White peers at one ip and the ports from 0. -/
def flood (n : Nat) : List PeerlistManager.Call :=
  (List.range n).map fun port => .appendWithPeerWhite ⟨⟨0x08080808, UInt32.ofNat port⟩, 1, 1⟩

open PeerlistManager in
/-- As long as ports are not repeated every one of them makes the white list
longer. -/
theorem flood_white (n : Nat) (hn : n < UInt32.size) :
    ((init true).calls (flood n)).mAllowLocalIp = true ∧
    ((init true).calls (flood n)).mPeersWhite.size = n ∧
    ∀ adr ∈ ((init true).calls (flood n)).mPeersWhite.keys, adr.port.toNat < n := by
  induction n with
  | zero => exact ⟨rfl, rfl, nofun⟩
  | succ n ih =>
    obtain ⟨hlocal, hsize, hports⟩ := ih (Nat.lt_of_succ_lt hn)
    have hstep : (init true).calls (flood (n + 1)) =
        ((init true).calls (flood n)).appendWithPeerWhite ⟨⟨0x08080808, UInt32.ofNat n⟩, 1, 1⟩ := by
      unfold flood calls
      rw [List.range_succ, List.map_append, List.foldl_append]
      rfl
    generalize (init true).calls (flood n) = m at hlocal hsize hports hstep
    have hport : (UInt32.ofNat n).toNat = n := UInt32.toNat_ofNat_of_lt' (Nat.lt_of_succ_lt hn)
    have hallowed : m.isIpAllowed 0x08080808 = true := by
      unfold isIpAllowed
      rw [hlocal]
      rfl
    have hnew : (⟨0x08080808, UInt32.ofNat n⟩ : NetAddress) ∉ m.mPeersWhite.keys := by
      intro hmem
      have hlt := hports _ hmem
      rw [hport] at hlt
      exact Nat.lt_irrefl n hlt
    rw [hstep, appendWithPeerWhite_allowed hallowed]
    refine ⟨hlocal, ?_, fun adr hadr => ?_⟩
    · show (m.mPeersWhite.put _).size = n + 1
      rw [Timed.size_put, if_neg hnew, hsize]
    · rcases Timed.mem_keys_put.1 hadr with rfl | hold
      · show (UInt32.ofNat n).toNat < n + 1
        rw [hport]
        exact Nat.lt_succ_self n
      · exact Nat.lt_succ_of_lt (hports adr hold)

open PeerlistManager in
/-- After one more white peer than the limit all of them are listed. -/
theorem white_list_too_long :
    ((init true).calls (flood 1001)).mPeersWhite.size = 1001 ∧
      ¬ ((init true).calls (flood 1001)).Bounded := by
  obtain ⟨-, hsize, -⟩ := flood_white 1001 (by decide)
  refine ⟨hsize, fun hbounded => ?_⟩
  have hle := hbounded.white
  rw [hsize] at hle
  exact absurd hle (by decide)

end DarknetSpace
