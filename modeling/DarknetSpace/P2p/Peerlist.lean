import DarknetSpace.Lib.Timed
import Mathlib.Data.Finset.Card
import Mathlib.Tactic.Ring

/-!
# The lists of peers (`p2p/net_peerlist.h`)

White peers have been talked to, gray ones only heard of. Each list is a
`multi_index_container` by address and by `last_seen` (`Timed`). The bodies of the
two functions that trim are exchanged: what is called when the white list has grown
takes from the gray one, and the other way round. So either list loses only what it
has too much of, but not when it has too much.

Main results: `address_listed_once`, an invariant of all four calls with what a gray
append leaves alone; and `getPeerlistHead_iff`, about the loop that gives the head of
the white list, which goes on for two entries more than the depth.
-/

namespace DarknetSpace

/-- `P2P_LOCAL_WHITE_PEERLIST_LIMIT`. -/
def p2pLocalWhitePeerlistLimit : Nat := 1000

/-- `P2P_LOCAL_GRAY_PEERLIST_LIMIT`. -/
def p2pLocalGrayPeerlistLimit : Nat := 5000

/-- `net_address`. -/
structure NetAddress where
  ip : UInt32
  port : UInt32
  deriving DecidableEq

/-- `peerlist_entry`. -/
structure PeerlistEntry where
  adr : NetAddress
  id : UInt64
  /-- `time_t` -/
  lastSeen : Int
  deriving DecidableEq

/-- `peers_indexed`. -/
abbrev PeersIndexed := Timed PeerlistEntry.adr PeerlistEntry.lastSeen

/-- `epee::net_utils::is_ip_loopback`. -/
def isIpLoopback (ip : UInt32) : Bool := ip ||| 0xffffff00 == 0xffffff7f

/-- `epee::net_utils::is_ip_local`; the shift is to the left, so no address is
found in the range of 172. -/
def isIpLocal (ip : UInt32) : Bool :=
  if ip ||| 0xffffff00 == 0xffffff0a then true
  else if ip ||| 0xffff0000 == 0xffffa8c0 then true
  else if ip ||| 0xffffff00 == 0xffffffac then
    let secondNum := ip <<< 8 &&& 0xff000000
    16 ≤ secondNum && secondNum ≤ 31
  else false

/-- `peerlist_manager`: the two lists, each with one entry for an address and ordered by
`last_seen`. -/
structure PeerlistManager where
  mAllowLocalIp : Bool
  mPeersGray : PeersIndexed
  mPeersWhite : PeersIndexed

namespace PeerlistManager

/-- `init`, of lists that are empty. -/
def init (allowLocalIp : Bool) : PeerlistManager := ⟨allowLocalIp, .empty, .empty⟩

/-- `is_ip_allowed`. -/
def isIpAllowed (m : PeerlistManager) (ip : UInt32) : Bool :=
  if isIpLoopback ip then false
  else if ¬ m.mAllowLocalIp ∧ isIpLocal ip then false
  else true

/-- `trim_white_peerlist`. -/
def trimWhitePeerlist (m : PeerlistManager) : PeerlistManager :=
  { m with mPeersGray := m.mPeersGray.trim p2pLocalGrayPeerlistLimit }

/-- `trim_gray_peerlist`. -/
def trimGrayPeerlist (m : PeerlistManager) : PeerlistManager :=
  { m with mPeersWhite := m.mPeersWhite.trim p2pLocalWhitePeerlistLimit }

/-- `append_with_peer_white`. -/
def appendWithPeerWhite (m : PeerlistManager) (ple : PeerlistEntry) : PeerlistManager :=
  if ¬ m.isIpAllowed ple.adr.ip then m
  else
    let m :=
      if ple.adr ∉ m.mPeersWhite.keys then
        trimWhitePeerlist { m with mPeersWhite := m.mPeersWhite.insert ple }
      else { m with mPeersWhite := m.mPeersWhite.replace ple }
    { m with mPeersGray := m.mPeersGray.eraseKey ple.adr }

/-- `append_with_peer_gray`. -/
def appendWithPeerGray (m : PeerlistManager) (ple : PeerlistEntry) : PeerlistManager :=
  if ¬ m.isIpAllowed ple.adr.ip then m
  else if ple.adr ∈ m.mPeersWhite.keys then m
  else if ple.adr ∉ m.mPeersGray.keys then
    trimGrayPeerlist { m with mPeersGray := m.mPeersGray.insert ple }
  else { m with mPeersGray := m.mPeersGray.replace ple }

/-- At the time `now`. -/
def setPeerJustSeen (m : PeerlistManager) (peer : UInt64) (addr : NetAddress) (now : Int) :
    PeerlistManager :=
  m.appendWithPeerWhite { adr := addr, id := peer, lastSeen := now }

/-- `merge_peerlist`. -/
def mergePeerlist (m : PeerlistManager) (outerBs : List PeerlistEntry) : PeerlistManager :=
  trimGrayPeerlist (outerBs.foldl appendWithPeerGray m)

/-- The loop of `get_peerlist_head` over the white list, the youngest first. -/
def headLoop (depth : UInt32) : (cnt : UInt32) → List PeerlistEntry → List PeerlistEntry
  | _, [] => []
  | cnt, vl :: rest =>
    if vl.lastSeen = 0 then headLoop depth cnt rest
    else if depth < cnt then [vl]
    else vl :: headLoop depth (cnt + 1) rest

/-- `get_peerlist_head`. -/
def getPeerlistHead (m : PeerlistManager) (bsHead : List PeerlistEntry) (depth : UInt32) :
    List PeerlistEntry :=
  bsHead ++ headLoop depth 0 m.mPeersWhite.entries.reverse

/-! ## Runs -/

/-- The calls that write the lists. -/
inductive Call where
  | appendWithPeerWhite (ple : PeerlistEntry)
  | appendWithPeerGray (ple : PeerlistEntry)
  | setPeerJustSeen (peer : UInt64) (addr : NetAddress) (now : Int)
  | mergePeerlist (outerBs : List PeerlistEntry)

def call (m : PeerlistManager) : Call → PeerlistManager
  | .appendWithPeerWhite ple => m.appendWithPeerWhite ple
  | .appendWithPeerGray ple => m.appendWithPeerGray ple
  | .setPeerJustSeen peer addr now => m.setPeerJustSeen peer addr now
  | .mergePeerlist outerBs => m.mergePeerlist outerBs

/-- The manager after some calls. -/
def calls (m : PeerlistManager) (cs : List Call) : PeerlistManager := cs.foldl call m

/-- What every white and every gray append keeps, and trimming the white list,
every run of calls keeps. -/
theorem calls_keep {P : PeerlistManager → Prop}
    (hwhite : ∀ m ple, P m → P (m.appendWithPeerWhite ple))
    (hgray : ∀ m ple, P m → P (m.appendWithPeerGray ple))
    (htrim : ∀ m, P m → P m.trimGrayPeerlist) {m : PeerlistManager} (h : P m) (cs : List Call) :
    P (m.calls cs) := by
  have hmerge : ∀ (outerBs : List PeerlistEntry) m, P m → P (outerBs.foldl appendWithPeerGray m) := by
    intro outerBs
    induction outerBs with
    | nil => exact fun m hm => hm
    | cons be rest ih => exact fun m hm => ih _ (hgray m be hm)
  induction cs generalizing m with
  | nil => exact h
  | cons c cs ih =>
    refine ih ?_
    cases c with
    | appendWithPeerWhite ple => exact hwhite m ple h
    | appendWithPeerGray ple => exact hgray m ple h
    | setPeerJustSeen peer addr now => exact hwhite m _ h
    | mergePeerlist outerBs => exact htrim _ (hmerge outerBs m h)

/-! ## One append at a time -/

/-- An allowed peer is put into the white list and taken out of the gray one, which
is trimmed if the peer is new. -/
theorem appendWithPeerWhite_allowed {m : PeerlistManager} {ple : PeerlistEntry}
    (h : m.isIpAllowed ple.adr.ip = true) :
    m.appendWithPeerWhite ple =
      { m with
        mPeersWhite := m.mPeersWhite.put ple
        mPeersGray := (if ple.adr ∈ m.mPeersWhite.keys then m.mPeersGray
          else m.mPeersGray.trim p2pLocalGrayPeerlistLimit).eraseKey ple.adr } := by
  unfold appendWithPeerWhite Timed.put
  rw [if_neg (fun hn => hn h)]
  by_cases hwhite : ple.adr ∈ m.mPeersWhite.keys
  · rw [if_neg (fun hn => hn hwhite), if_pos hwhite, if_pos hwhite]
  · rw [if_pos hwhite, if_neg hwhite, if_neg hwhite]
    rfl

theorem appendWithPeerWhite_refused {m : PeerlistManager} {ple : PeerlistEntry}
    (h : ¬m.isIpAllowed ple.adr.ip = true) : m.appendWithPeerWhite ple = m := by
  unfold appendWithPeerWhite
  rw [if_pos h]

/-- A peer that is allowed and not white is put into the gray list, and the white
one is trimmed if the peer is new. -/
theorem appendWithPeerGray_taken {m : PeerlistManager} {ple : PeerlistEntry}
    (h : m.isIpAllowed ple.adr.ip = true) (hwhite : ple.adr ∉ m.mPeersWhite.keys) :
    m.appendWithPeerGray ple =
      { m with
        mPeersGray := m.mPeersGray.put ple
        mPeersWhite := if ple.adr ∈ m.mPeersGray.keys then m.mPeersWhite
          else m.mPeersWhite.trim p2pLocalWhitePeerlistLimit } := by
  unfold appendWithPeerGray Timed.put
  rw [if_neg (fun hn => hn h), if_neg hwhite]
  by_cases hgray : ple.adr ∈ m.mPeersGray.keys
  · rw [if_neg (fun hn => hn hgray), if_pos hgray, if_pos hgray]
  · rw [if_pos hgray, if_neg hgray, if_neg hgray]
    rfl

/-- Nor on the gray list, and neither is one that is white. -/
theorem appendWithPeerGray_refused {m : PeerlistManager} {ple : PeerlistEntry}
    (h : ¬(m.isIpAllowed ple.adr.ip = true ∧ ple.adr ∉ m.mPeersWhite.keys)) :
    m.appendWithPeerGray ple = m := by
  unfold appendWithPeerGray
  by_cases hallowed : m.isIpAllowed ple.adr.ip = true
  · rw [if_neg (fun hn => hn hallowed), if_pos (not_not.1 fun hn => h ⟨hallowed, hn⟩)]
  · rw [if_pos hallowed]

/-! ## Every address once -/

/-- No address in both lists, and none that is not allowed. -/
structure Listed (m : PeerlistManager) : Prop where
  apart : ∀ a ∈ m.mPeersWhite.entries, ∀ b ∈ m.mPeersGray.entries, a.adr ≠ b.adr
  white : ∀ e ∈ m.mPeersWhite.entries, m.isIpAllowed e.adr.ip = true
  gray : ∀ e ∈ m.mPeersGray.entries, m.isIpAllowed e.adr.ip = true

/-- Fewer entries are listed still. -/
theorem Listed.fewer {m m' : PeerlistManager} (h : m.Listed) (hip : m'.mAllowLocalIp = m.mAllowLocalIp)
    (hwhite : m'.mPeersWhite.entries ⊆ m.mPeersWhite.entries)
    (hgray : m'.mPeersGray.entries ⊆ m.mPeersGray.entries) : m'.Listed := by
  have hallowed : ∀ ip, m'.isIpAllowed ip = m.isIpAllowed ip := by
    intro ip
    unfold isIpAllowed
    rw [hip]
  refine ⟨fun a ha b hb => h.apart a (hwhite ha) b (hgray hb), fun e he => ?_, fun e he => ?_⟩
  · rw [hallowed]
    exact h.white e (hwhite he)
  · rw [hallowed]
    exact h.gray e (hgray he)

/-- A put on the white list takes the address off the gray one. -/
theorem Listed.appendWithPeerWhite {m : PeerlistManager} (h : m.Listed) (ple : PeerlistEntry) :
    (m.appendWithPeerWhite ple).Listed := by
  by_cases hallowed : m.isIpAllowed ple.adr.ip = true
  · have hgray : ∀ b ∈ (if ple.adr ∈ m.mPeersWhite.keys then m.mPeersGray
        else m.mPeersGray.trim p2pLocalGrayPeerlistLimit).entries, b ∈ m.mPeersGray.entries := by
      intro b hb
      by_cases hwhite : ple.adr ∈ m.mPeersWhite.keys
      · rw [if_pos hwhite] at hb
        exact hb
      · rw [if_neg hwhite] at hb
        exact (Timed.trim_sublist _ _).subset hb
    rw [appendWithPeerWhite_allowed hallowed]
    refine ⟨fun a ha b hb => ?_, fun e he => ?_, fun e he => ?_⟩
    · obtain ⟨hb, hne⟩ := Timed.mem_eraseKey.1 hb
      rcases Timed.mem_put.1 ha with rfl | ⟨ha, -⟩
      · exact hne.symm
      · exact h.apart a ha b (hgray b hb)
    · rcases Timed.mem_put.1 he with rfl | ⟨he, -⟩
      · exact hallowed
      · exact h.white e he
    · exact h.gray e (hgray e (Timed.mem_eraseKey.1 he).1)
  · rw [appendWithPeerWhite_refused hallowed]
    exact h

/-- A put on the gray list is of an address that is not white. -/
theorem Listed.appendWithPeerGray {m : PeerlistManager} (h : m.Listed) (ple : PeerlistEntry) :
    (m.appendWithPeerGray ple).Listed := by
  by_cases htaken : m.isIpAllowed ple.adr.ip = true ∧ ple.adr ∉ m.mPeersWhite.keys
  · have hwhite : ∀ a ∈ (if ple.adr ∈ m.mPeersGray.keys then m.mPeersWhite
        else m.mPeersWhite.trim p2pLocalWhitePeerlistLimit).entries, a ∈ m.mPeersWhite.entries := by
      intro a ha
      by_cases hgray : ple.adr ∈ m.mPeersGray.keys
      · rw [if_pos hgray] at ha
        exact ha
      · rw [if_neg hgray] at ha
        exact (Timed.trim_sublist _ _).subset ha
    rw [appendWithPeerGray_taken htaken.1 htaken.2]
    refine ⟨fun a ha b hb => ?_, fun e he => h.white e (hwhite e he), fun e he => ?_⟩
    · rcases Timed.mem_put.1 hb with rfl | ⟨hb, -⟩
      · exact fun heq => htaken.2 (Timed.mem_keys.2 ⟨a, hwhite a ha, heq⟩)
      · exact h.apart a (hwhite a ha) b hb
    · rcases Timed.mem_put.1 he with rfl | ⟨he, -⟩
      · exact htaken.1
      · exact h.gray e he
  · rw [appendWithPeerGray_refused htaken]
    exact h

/-- A gray append leaves the white list alone, but for what trimming takes. -/
theorem appendWithPeerGray_white (m : PeerlistManager) (ple : PeerlistEntry) :
    (m.appendWithPeerGray ple).mPeersWhite = m.mPeersWhite ∨
      (m.appendWithPeerGray ple).mPeersWhite = m.mPeersWhite.trim p2pLocalWhitePeerlistLimit := by
  by_cases htaken : m.isIpAllowed ple.adr.ip = true ∧ ple.adr ∉ m.mPeersWhite.keys
  · rw [appendWithPeerGray_taken htaken.1 htaken.2]
    by_cases hgray : ple.adr ∈ m.mPeersGray.keys
    · exact .inl (if_pos hgray)
    · exact .inr (if_neg hgray)
  · rw [appendWithPeerGray_refused htaken]
    exact .inl rfl

/-- After any calls an address is in one list at most, once, and allowed; and a
gray append leaves a white entry as it is unless the list is too long and the entry
among the oldest. -/
theorem address_listed_once (allowLocalIp : Bool) (cs : List Call) :
    (((init allowLocalIp).calls cs).mPeersWhite.entries.map PeerlistEntry.adr).Nodup ∧
    (((init allowLocalIp).calls cs).mPeersGray.entries.map PeerlistEntry.adr).Nodup ∧
    ((init allowLocalIp).calls cs).Listed ∧
    ∀ ple, ∀ e ∈ ((init allowLocalIp).calls cs).mPeersWhite.entries,
      e ∈ (((init allowLocalIp).calls cs).appendWithPeerGray ple).mPeersWhite.entries ∨
      p2pLocalWhitePeerlistLimit < ((init allowLocalIp).calls cs).mPeersWhite.size ∧
        e ∈ ((init allowLocalIp).calls cs).mPeersWhite.entries.take
          (((init allowLocalIp).calls cs).mPeersWhite.size - p2pLocalWhitePeerlistLimit) := by
  have hinit : (init allowLocalIp).Listed := ⟨nofun, nofun, nofun⟩
  have hlisted : ((init allowLocalIp).calls cs).Listed :=
    calls_keep (fun m ple h => h.appendWithPeerWhite ple) (fun m ple h => h.appendWithPeerGray ple)
      (fun m h => h.fewer rfl (Timed.trim_sublist _ _).subset (List.Subset.refl _)) hinit cs
  generalize (init allowLocalIp).calls cs = m at hlisted ⊢
  refine ⟨m.mPeersWhite.unique, m.mPeersGray.unique, hlisted, fun ple e he => ?_⟩
  rcases m.appendWithPeerGray_white ple with hsame | htrim
  · rw [hsame]
    exact .inl he
  · rw [htrim]
    exact Timed.mem_trim_or he

/-! ## The head of the white list -/

/-- Whether a peer was seen at all. -/
def isSeen (vl : PeerlistEntry) : Bool := decide (vl.lastSeen ≠ 0)

theorem isSeen_of_zero {vl : PeerlistEntry} (h : vl.lastSeen = 0) : ¬isSeen vl = true :=
  fun hn => of_decide_eq_true hn h

theorem isSeen_of_ne_zero {vl : PeerlistEntry} (h : ¬vl.lastSeen = 0) : isSeen vl = true :=
  decide_eq_true h

/-- The white peers that have been seen, the youngest first. -/
def seen (m : PeerlistManager) : List PeerlistEntry :=
  m.mPeersWhite.entries.reverse.filter isSeen

/-- What is to be given away for a depth: as many peers as that, or all there are,
all of them seen, the youngest, by falling time. -/
structure IsHead (m : PeerlistManager) (depth : Nat) (head : List PeerlistEntry) : Prop where
  length : head.length = min depth m.seen.length
  seen : head.Sublist m.seen
  falling : head.Pairwise fun a b => b.lastSeen ≤ a.lastSeen
  youngest : ∀ e ∈ m.seen, e ∉ head → ∀ a ∈ head, e.lastSeen ≤ a.lastSeen

/-- The head lists peers that were seen, in their order. -/
theorem headLoop_sublist (depth cnt : UInt32) (l : List PeerlistEntry) :
    (headLoop depth cnt l).Sublist (l.filter isSeen) := by
  induction l generalizing cnt with
  | nil => exact List.Sublist.refl _
  | cons vl rest ih =>
    unfold headLoop
    by_cases hzero : vl.lastSeen = 0
    · rw [if_pos hzero, List.filter_cons_of_neg (isSeen_of_zero hzero)]
      exact ih cnt
    · rw [if_neg hzero, List.filter_cons_of_pos (isSeen_of_ne_zero hzero)]
      by_cases hdeep : depth < cnt
      · rw [if_pos hdeep]
        exact (List.nil_sublist _).cons_cons vl
      · rw [if_neg hdeep]
        exact (ih (cnt + 1)).cons_cons vl

/-- The counter does not get past the depth: all peers are taken. -/
theorem headLoop_all {depth cnt : UInt32} {l : List PeerlistEntry}
    (h : cnt.toNat + (l.filter isSeen).length ≤ depth.toNat + 1) :
    headLoop depth cnt l = l.filter isSeen := by
  induction l generalizing cnt with
  | nil => rfl
  | cons vl rest ih =>
    unfold headLoop
    by_cases hzero : vl.lastSeen = 0
    · rw [List.filter_cons_of_neg (isSeen_of_zero hzero)] at h ⊢
      rw [if_pos hzero]
      exact ih h
    · rw [List.filter_cons_of_pos (isSeen_of_ne_zero hzero)] at h ⊢
      rw [List.length_cons] at h
      rw [if_neg hzero, if_neg (by rw [UInt32.lt_iff_toNat_lt]; omega)]
      congr 1
      by_cases hlast : (rest.filter isSeen).length = 0
      · have hnil := List.eq_nil_of_length_eq_zero hlast
        rw [hnil]
        exact List.eq_nil_of_sublist_nil (hnil ▸ headLoop_sublist depth (cnt + 1) rest)
      · have hdepth := depth.toNat_lt
        have hnext : (cnt + 1).toNat = cnt.toNat + 1 := by
          rw [UInt32.toNat_add]
          exact Nat.mod_eq_of_lt (show cnt.toNat + 1 < 2 ^ 32 by omega)
        exact ih (by rw [hnext]; omega)

/-- The counter is looked at behind the push and before it is raised, so one peer
more than the depth is taken if there is one. -/
theorem headLoop_more {depth cnt : UInt32} {l : List PeerlistEntry} (hcnt : cnt ≤ depth)
    (h : depth.toNat < cnt.toNat + (l.filter isSeen).length) :
    depth.toNat < cnt.toNat + (headLoop depth cnt l).length := by
  have hcnt' := UInt32.le_iff_toNat_le.1 hcnt
  induction l generalizing cnt with
  | nil => exact h
  | cons vl rest ih =>
    unfold headLoop
    by_cases hzero : vl.lastSeen = 0
    · rw [List.filter_cons_of_neg (isSeen_of_zero hzero)] at h
      rw [if_pos hzero]
      exact ih hcnt h hcnt'
    · rw [List.filter_cons_of_pos (isSeen_of_ne_zero hzero), List.length_cons] at h
      rw [if_neg hzero, if_neg (by rw [UInt32.lt_iff_toNat_lt]; omega), List.length_cons]
      by_cases hlast : cnt.toNat = depth.toNat
      · omega
      · have hdepth := depth.toNat_lt
        have hnext : (cnt + 1).toNat = cnt.toNat + 1 := by
          rw [UInt32.toNat_add]
          exact Nat.mod_eq_of_lt (show cnt.toNat + 1 < 2 ^ 32 by omega)
        have hmore : depth.toNat < (cnt + 1).toNat + (headLoop depth (cnt + 1) rest).length :=
          ih (UInt32.le_iff_toNat_le.2 (by omega)) (by rw [hnext]; omega) (by rw [hnext]; omega)
        rw [hnext] at hmore
        omega

theorem seen_falling (m : PeerlistManager) :
    m.seen.Pairwise fun a b => b.lastSeen ≤ a.lastSeen :=
  (List.pairwise_reverse.2 m.mPeersWhite.sorted).sublist List.filter_sublist

/-- The head is what it is to be exactly if there are no more peers than the depth. -/
theorem getPeerlistHead_iff (m : PeerlistManager) (bsHead : List PeerlistEntry) (depth : UInt32) :
    (∃ head, m.getPeerlistHead bsHead depth = bsHead ++ head ∧ m.IsHead depth.toNat head) ↔
      m.seen.length ≤ depth.toNat := by
  constructor
  · rintro ⟨head, hhead, hright⟩
    obtain rfl : headLoop depth 0 m.mPeersWhite.entries.reverse = head :=
      List.append_cancel_left hhead
    by_contra hmore
    have hlen := hright.length
    have hlong : depth.toNat < (0 : UInt32).toNat +
        (headLoop depth 0 m.mPeersWhite.entries.reverse).length := by
      refine headLoop_more (UInt32.le_iff_toNat_le.2 (Nat.zero_le _)) ?_
      show depth.toNat < 0 + m.seen.length
      omega
    rw [UInt32.toNat_zero] at hlong
    omega
  · intro hfew
    have hall : headLoop depth 0 m.mPeersWhite.entries.reverse = m.seen := by
      refine headLoop_all ?_
      show 0 + m.seen.length ≤ depth.toNat + 1
      omega
    refine ⟨m.seen, congrArg (bsHead ++ ·) hall, ?_, List.Sublist.refl _, m.seen_falling, ?_⟩
    · exact (Nat.min_eq_right hfew).symm
    · exact fun e he hnot => absurd he hnot

end PeerlistManager

/-- Three white peers seen at the times 10, 20 and 30. -/
def threePeers : PeerlistManager :=
  (PeerlistManager.init true).calls
    [.setPeerJustSeen 1 ⟨0x08080808, 1⟩ 10, .setPeerJustSeen 2 ⟨0x08080808, 2⟩ 20,
      .setPeerJustSeen 3 ⟨0x08080808, 3⟩ 30]

/-- Asked for one of them the head has all three. -/
theorem head_too_long :
    threePeers.getPeerlistHead [] 1 =
        [⟨⟨0x08080808, 3⟩, 3, 30⟩, ⟨⟨0x08080808, 2⟩, 2, 20⟩, ⟨⟨0x08080808, 1⟩, 1, 10⟩] ∧
      ¬ ∃ head, threePeers.getPeerlistHead [] 1 = [] ++ head ∧ threePeers.IsHead 1 head := by
  have hthree : threePeers.getPeerlistHead [] 1 =
      [⟨⟨0x08080808, 3⟩, 3, 30⟩, ⟨⟨0x08080808, 2⟩, 2, 20⟩, ⟨⟨0x08080808, 1⟩, 1, 10⟩] := by
    decide
  refine ⟨hthree, ?_⟩
  rintro ⟨head, hhead, hright⟩
  have hlen := hright.length
  rw [hthree, List.nil_append] at hhead
  rw [← hhead] at hlen
  have hmin : min 1 threePeers.seen.length ≤ 1 := Nat.min_le_left _ _
  simp only [List.length_cons, List.length_nil] at hlen
  omega

end DarknetSpace
