import DarknetSpace.Miner.SimpleMiner
import DarknetSpace.Core.AltBranch

/-!
# Does the miner's scratchpad follow the daemon's?

The miner's copy belonged to some earlier chain of the daemon. When the daemon's chain
has grown on top of that block, the addenda are exactly what is missing. When the
block has been replaced, the miner gives up, because it keeps no record to undo
anything with. The daemon however answers with an empty list before it has compared
ids, in two cases: for a miner at height 0 and for a miner at the daemon's own
height. The miner takes that for good news.

Main result: `miner_follows_daemon_iff`, for a miner that had the daemon's scratchpad at
some point of a run, and the daemon at any later one. The condition is on the two
chains: what the miner's block is to the daemon's chain now, and the heights of both.
-/

namespace DarknetSpace

open SimpleMiner

/-- A chain of the daemon with the scratchpad its blocks build. -/
structure DaemonChain (env : Env) (s : Storage) : Prop where
  nonempty : s.mBlocks ≠ []
  linked : Linked env s.mBlocks
  claimed : ∀ (i : Nat) e, s.mBlocks[i]? = some e → (getBlockHeight e.bl).toNat = i
  pad : pushBlocksScratchpadData env (s.mBlocks.map (·.bl)) [] = .ok s.mScratchpad

/-- On every main chain the coinbases know their heights. -/
theorem claimed_invariant (env : Env) : BlocksInvariant env (fun _ => True) fun bs =>
    ∀ (i : Nat) e, bs[i]? = some e → claimedHeight e.bl = i := by
  refine ⟨?_, ?_, ?_⟩
  · intro bs bs' hb h i e he
    obtain ⟨e₀, he₀, hbl⟩ := bl_of_forgetFlags hb he
    rw [← hbl]
    exact h i e₀ he₀
  · intro now bl n n' c _ h i e he
    have hlen : c.m.chain.mBlocks.length = n.chain.mBlocks.length :=
      length_eq_of_forgetFlags c.forgetFlags_eq
    by_cases hi : i < c.m.chain.mBlocks.length
    · rw [List.getElem?_append_left hi] at he
      obtain ⟨e₀, he₀, hbl⟩ := bl_of_forgetFlags c.forgetFlags_eq he
      rw [← hbl]
      rcases h with hnil | h
      · rw [hnil] at he₀
        cases he₀
      · exact h i e₀ he₀
    · have hlt := (List.getElem?_eq_some_iff.1 he).1
      rw [List.length_append, List.length_singleton] at hlt
      have hi' : i = c.m.chain.mBlocks.length := by omega
      rw [hi', List.getElem?_concat_length] at he
      cases he
      rw [hi', hlen]
      exact claimedHeight_of_form c.form
  · intro bs e _ h i e' he'
    refine h i e' ?_
    rw [List.getElem?_append_left (List.getElem?_eq_some_iff.1 he').1]
    exact he'

theorem Reachable.claimed {env : Env} {n : Node} (hn : Reachable env n) (i : Nat) (e : BlockEntry)
    (he : n.chain.mBlocks[i]? = some e) : (getBlockHeight e.bl).toNat = i :=
  ((claimed_invariant env).of_reachable (guaranteed_true env).admitted hn).2 i e he

/-- A node whose scratchpad is that of its blocks. -/
theorem Reachable.daemonChain {env : Env} {n : Node} (hn : Reachable env n)
    (hpad : pushBlocksScratchpadData env (n.chain.mBlocks.map (·.bl)) [] = .ok n.chain.mScratchpad) :
    DaemonChain env n.chain := by
  obtain ⟨-, hnonempty⟩ := hn.wellNumbered
  have hline := ((mainLine_invariant env).of_reachable (guaranteed_true env).admitted hn).2
  exact ⟨hnonempty, hline.2, hn.claimed, hpad⟩

section

variable {env : Env} {s s₀ : Storage}

/-- The top block is the last one, and knows its height. -/
theorem DaemonChain.top (d : DaemonChain env s) :
    ∃ e, s.mBlocks[s.mBlocks.length - 1]? = some e ∧ getTopBlock s = e.bl ∧
      (getBlockHeight e.bl).toNat + 1 = s.mBlocks.length := by
  have hlast := List.getLast?_eq_some_getLast d.nonempty
  have hpos := List.length_pos_iff.2 d.nonempty
  refine ⟨s.mBlocks.getLast d.nonempty, ?_, ?_, ?_⟩
  · rw [← List.getLast?_eq_getElem?, hlast]
  · unfold getTopBlock
    rw [hlast]
  · rw [d.claimed _ _ (List.getLast?_eq_getElem?.symm.trans hlast)]
    omega

theorem pushBlocksScratchpadData_append {xs ys : List Block} {pad pad' : List Hash}
    (h : pushBlocksScratchpadData env (xs ++ ys) pad = .ok pad') :
    ∃ mid, pushBlocksScratchpadData env xs pad = .ok mid ∧
      pushBlocksScratchpadData env ys mid = .ok pad' := by
  induction xs generalizing pad with
  | nil => exact ⟨pad, rfl, h⟩
  | cons b rest ih =>
    rw [List.cons_append, pushBlocksScratchpadData] at h
    rw [pushBlocksScratchpadData]
    cases hb : pushBlockScratchpadData env b pad with
    | error e =>
      rw [hb] at h
      cases h
    | ok pad₁ =>
      rw [hb] at h
      exact ih h

/-- Two chains that agree on a block agree below it. -/
theorem DaemonChain.same_below (d₀ : DaemonChain env s₀) (d : DaemonChain env s)
    (hunique : ∀ e₀ ∈ s₀.mBlocks, ∀ e ∈ s.mBlocks,
      getBlockHash env e₀.bl = getBlockHash env e.bl → e₀.bl = e.bl)
    {i : Nat} {e₀ e : BlockEntry} (h₀ : s₀.mBlocks[i]? = some e₀) (h : s.mBlocks[i]? = some e)
    (hid : getBlockHash env e₀.bl = getBlockHash env e.bl) :
    (s₀.mBlocks.take (i + 1)).map (·.bl) = (s.mBlocks.take (i + 1)).map (·.bl) := by
  have hbl := hunique e₀ (List.mem_of_getElem? h₀) e (List.mem_of_getElem? h) hid
  induction i generalizing e₀ e with
  | zero =>
    rw [List.take_add_one, List.take_add_one, h₀, h, List.take_zero, List.take_zero]
    exact congrArg (fun b => [b]) hbl
  | succ i ih =>
    have hlt₀ := (List.getElem?_eq_some_iff.1 h₀).1
    have hlt := (List.getElem?_eq_some_iff.1 h).1
    have hp₀ : s₀.mBlocks[i]? = some s₀.mBlocks[i] := List.getElem?_eq_getElem (by omega)
    have hp : s.mBlocks[i]? = some s.mBlocks[i] := List.getElem?_eq_getElem (by omega)
    have hprev : getBlockHash env s₀.mBlocks[i].bl = getBlockHash env s.mBlocks[i].bl := by
      rw [← d₀.linked i _ _ hp₀ h₀, ← d.linked i _ _ hp h, hbl]
    have hrest := ih hp₀ hp hprev
      (hunique _ (List.mem_of_getElem? hp₀) _ (List.mem_of_getElem? hp) hprev)
    rw [List.take_add_one (i := i + 1), List.take_add_one (i := i + 1), List.map_append,
      List.map_append, hrest, h₀, h]
    exact congrArg (fun b => _ ++ [b]) hbl

/-! ## The addenda -/

/-- What the miner pushes is what the daemon pushed. -/
theorem pushAddendum_eq_push {b : Block} {ad : List Hash}
    (h : getBlockScratchpadAddendum env b = .ok (true, ad)) (m : SimpleMiner) (hi : HeightInfo)
    (prevId : Hash) :
    pushBlockScratchpadData env b m.mScratchpad = .ok (m.pushAddendum ⟨hi, prevId, ad⟩).mScratchpad := by
  unfold pushBlockScratchpadData pushBlockScratchpadPatch pushAddendum
  rw [h]
  simp only [bind, Except.bind, pure, Except.pure]
  rw [applyScratchpadPatch_append fun i hi => getD_getScratchpadPatch_of_le hi ad]

theorem addendumsOf_push {bs : List Block} {addms : List Addendum}
    (h : addendumsOf env bs = .ok (true, addms)) (m : SimpleMiner) :
    pushBlocksScratchpadData env bs m.mScratchpad = .ok (addms.foldl pushAddendum m).mScratchpad := by
  induction bs generalizing addms m with
  | nil =>
    cases h
    rfl
  | cons b rest ih =>
    unfold addendumsOf at h
    split at h
    next => cases h
    next => cases h
    next ad hb =>
      split at h
      next => cases h
      next r addms' hrest =>
        cases h
        unfold pushBlocksScratchpadData
        rw [pushAddendum_eq_push hb m ⟨getBlockHeight b, getBlockHash env b⟩ b.prevId]
        exact ih hrest _

/-- Every addendum is labelled with its block and names the block below. -/
theorem addendumsOf_labels {bs : List Block} {addms : List Addendum}
    (h : addendumsOf env bs = .ok (true, addms)) :
    addms.map (fun a => (a.hi, a.prevId)) =
      bs.map fun b => (⟨getBlockHeight b, getBlockHash env b⟩, b.prevId) := by
  induction bs generalizing addms with
  | nil =>
    cases h
    rfl
  | cons b rest ih =>
    unfold addendumsOf at h
    split at h
    next => cases h
    next => cases h
    next ad hb =>
      split at h
      next => cases h
      next r addms' hrest =>
        cases h
        rw [List.map_cons, List.map_cons, ih hrest]

/-- Addenda of the blocks from `start` on, for a miner that has nothing recorded:
they are pushed if the miner's block is the one below, and refused otherwise. -/
theorem applyAddendums_above {start : Nat} {addms : List Addendum} {m m' : SimpleMiner}
    (d : DaemonChain env s) (hstart : start + 1 < s.mBlocks.length)
    (haddms : addendumsOf env ((s.mBlocks.drop (start + 1)).map (·.bl)) = .ok (true, addms))
    (hnone : m.mBlocksAddendums = []) (happly : m.applyAddendums addms = .ok (true, m')) :
    (∃ e, s.mBlocks[start]? = some e ∧ getBlockHash env e.bl = m.mHi.id) ∧
      pushBlocksScratchpadData env ((s.mBlocks.drop (start + 1)).map (·.bl)) m.mScratchpad =
        .ok m'.mScratchpad ∧
      m'.mHi = getCurrentHi env s := by
  have hlabels := addendumsOf_labels haddms
  have hbelow : s.mBlocks[start]? = some s.mBlocks[start] := List.getElem?_eq_getElem (by omega)
  have hfirst : s.mBlocks[start + 1]? = some s.mBlocks[start + 1] :=
    List.getElem?_eq_getElem hstart
  obtain ⟨top, htop, htopBlock, -⟩ := d.top
  -- the ends of the list of addenda
  have hhead : addms.head?.map (·.prevId) = some (getBlockHash env s.mBlocks[start].bl) := by
    have := congrArg (fun l => l.head?.map Prod.snd) hlabels
    simp only [List.head?_map, Option.map_map, List.head?_drop, hfirst] at this
    rw [← d.linked start _ _ hbelow hfirst]
    exact this
  have hlast : addms.getLast?.map (·.hi) = some (getCurrentHi env s) := by
    have hne : s.mBlocks.drop (start + 1) ≠ [] := by
      rw [Ne, List.drop_eq_nil_iff]
      omega
    have := congrArg (fun l => l.getLast?.map Prod.fst) hlabels
    have htopLast : s.mBlocks.getLast? = some top := List.getLast?_eq_getElem?.trans htop
    simp only [List.getLast?_map, Option.map_map, List.getLast?_drop, Nat.not_le.2 hstart, if_false,
      htopLast] at this
    unfold getCurrentHi
    rw [htopBlock]
    exact this
  obtain ⟨first, hfirst', hpid⟩ := Option.map_eq_some_iff.1 hhead
  obtain ⟨last, hlast', hhi⟩ := Option.map_eq_some_iff.1 hlast
  unfold applyAddendums at happly
  rw [hfirst', hlast'] at happly
  simp only at happly
  split at happly
  next hother =>
    rw [unpatch_nil hnone] at happly
    cases happly
  next hsame =>
    cases happly
    refine ⟨⟨_, hbelow, hpid.symm.trans (not_not.1 hsame)⟩, ?_, hhi⟩
    exact addendumsOf_push haddms m

theorem addendumsAbove_eq {height : Nat} (h : height + 1 < s.mBlocks.length) :
    addendumsAbove env s height =
      addendumsOf env ((s.mBlocks.drop (height + 1)).map (·.bl)) := by
  unfold addendumsAbove getBlocks Storage.getCurrentBlockchainHeight
  rw [if_neg (Nat.not_le.2 h), if_pos rfl, List.take_of_length_le (by rw [List.length_drop])]

/-- The daemon has a block at the miner's height and more above it. -/
theorem DaemonChain.follow_above {m m' : SimpleMiner} {addms : List Addendum} {e₀ : BlockEntry}
    (d₀ : DaemonChain env s₀) (d : DaemonChain env s)
    (hunique : ∀ e₀ ∈ s₀.mBlocks, ∀ e ∈ s.mBlocks,
      getBlockHash env e₀.bl = getBlockHash env e.bl → e₀.bl = e.bl)
    (he₀ : s₀.mBlocks[s₀.mBlocks.length - 1]? = some e₀)
    (hheight₀ : (getBlockHeight e₀.bl).toNat + 1 = s₀.mBlocks.length)
    (hlabel₀ : m.mHi = ⟨getBlockHeight e₀.bl, getBlockHash env e₀.bl⟩)
    (hpad : m.mScratchpad = s₀.mScratchpad) (hnone : m.mBlocksAddendums = [])
    (hlt : m.mHi.height.toNat < s.mBlocks.length)
    (hnext : m.mHi.height.toNat + 1 ≠ s.mBlocks.length) (hzero : m.mHi.height.toNat ≠ 0)
    (hget : addendumsAbove env s (addendumHeight env s m.mHi) = .ok (true, addms))
    (happly : m.applyAddendums addms = .ok (true, m')) :
    m'.mScratchpad = s.mScratchpad ∧ m'.mHi = getCurrentHi env s := by
  have hk : m.mHi.height.toNat = s₀.mBlocks.length - 1 := by
    rw [hlabel₀]
    show (getBlockHeight e₀.bl).toNat = _
    omega
  have hat : s.mBlocks[m.mHi.height.toNat]? = some s.mBlocks[m.mHi.height.toNat] :=
    List.getElem?_eq_getElem hlt
  have hidAt : getBlockIdByHeight env s m.mHi.height.toNat =
      getBlockHash env s.mBlocks[m.mHi.height.toNat].bl := by
    unfold getBlockIdByHeight
    rw [hat]
  by_cases hsplit : getBlockIdByHeight env s m.mHi.height.toNat ≠ m.mHi.id
  · -- the miner's block is gone, and a block below it never has its id
    exfalso
    unfold addendumHeight at hget
    rw [if_pos hsplit, addendumsAbove_eq (by omega)] at hget
    obtain ⟨⟨e, he, hid⟩, -, -⟩ := applyAddendums_above d (by omega) hget hnone happly
    have hbl := hunique e₀ (List.mem_of_getElem? he₀) e (List.mem_of_getElem? he)
      (by rw [hid, hlabel₀])
    have hclaimed := d.claimed _ _ he
    rw [← hbl] at hclaimed
    omega
  · unfold addendumHeight at hget
    rw [if_neg hsplit, addendumsAbove_eq (by omega)] at hget
    obtain ⟨-, hpush, hhi⟩ := applyAddendums_above d (by omega) hget hnone happly
    refine ⟨?_, hhi⟩
    have hid : getBlockHash env e₀.bl = getBlockHash env s.mBlocks[m.mHi.height.toNat].bl := by
      rw [← hidAt, not_not.1 hsplit, hlabel₀]
    -- ids determine the blocks, so the two chains are one up to the miner's block
    have hbelow := d₀.same_below d hunique (hk ▸ he₀) hat hid
    have hwhole : s₀.mBlocks.take (m.mHi.height.toNat + 1) = s₀.mBlocks :=
      List.take_of_length_le (by omega)
    have hall := d.pad
    rw [← List.take_append_drop (m.mHi.height.toNat + 1) s.mBlocks, List.map_append] at hall
    obtain ⟨mid, hmid, hrest⟩ := pushBlocksScratchpadData_append hall
    rw [← hbelow, hwhole, d₀.pad] at hmid
    rw [← Except.ok.inj hmid, ← hpad, hpush] at hrest
    exact Except.ok.inj hrest

end

/-- The miner had the daemon's scratchpad and label; it will have those of the
daemon's later chain, or one of the two calls fails, exactly unless the daemon answers
with an empty list although its top block is another one. -/
theorem miner_follows_daemon_iff {env : Env} {s₀ s : Storage} {m : SimpleMiner} (hm : m.Reached)
    (d₀ : DaemonChain env s₀) (d : DaemonChain env s)
    (hunique : ∀ e₀ ∈ s₀.mBlocks, ∀ e ∈ s.mBlocks,
      getBlockHash env e₀.bl = getBlockHash env e.bl → e₀.bl = e.bl)
    (hpad : m.mScratchpad = s₀.mScratchpad) (hhi : m.mHi = getCurrentHi env s₀) :
    (∀ addms m', getAddendumForHi env s m.mHi = .ok (true, addms) →
      m.applyAddendums addms = .ok (true, m') →
        m'.mScratchpad = s.mScratchpad ∧ m'.mHi = getCurrentHi env s) ↔
    (s₀.mBlocks.length = 1 ∨ s₀.mBlocks.length = s.mBlocks.length →
      getCurrentHi env s₀ = getCurrentHi env s) := by
  obtain ⟨e₀, he₀, htop₀, hheight₀⟩ := d₀.top
  obtain ⟨e, he, htop, hheight⟩ := d.top
  have hlabel₀ : m.mHi = ⟨getBlockHeight e₀.bl, getBlockHash env e₀.bl⟩ := by
    rw [hhi]
    unfold getCurrentHi
    rw [htop₀]
  have hlabel : getCurrentHi env s = ⟨getBlockHeight e.bl, getBlockHash env e.bl⟩ := by
    unfold getCurrentHi
    rw [htop]
  have hnat : m.mHi.height.toNat + 1 = s₀.mBlocks.length := by rw [hlabel₀]; exact hheight₀
  have hquiet : (m.mHi.height = 0 ∨ m.mHi.height.toNat + 1 = s.getCurrentBlockchainHeight) ↔
      (s₀.mBlocks.length = 1 ∨ s₀.mBlocks.length = s.mBlocks.length) := by
    have hzero : (0 : UInt64).toNat = 0 := rfl
    rw [hnat, ← UInt64.toNat_inj, hzero]
    refine or_congr ?_ Iff.rfl
    omega
  constructor
  · intro hfollows hcase
    -- the answer is empty and nothing changes
    have hempty : getAddendumForHi env s m.mHi = .ok (true, []) := by
      unfold getAddendumForHi
      rw [if_pos (hquiet.2 hcase)]
    rw [← hhi]
    exact (hfollows [] m hempty rfl).2
  · intro hcond addms m' hget happly
    by_cases hcase : s₀.mBlocks.length = 1 ∨ s₀.mBlocks.length = s.mBlocks.length
    · have htops := hcond hcase
      unfold getAddendumForHi at hget
      rw [if_pos (hquiet.2 hcase)] at hget
      cases hget
      cases happly
      rw [← htops]
      refine ⟨?_, hhi⟩
      -- the same label: the same block at the same height, so the same chain
      obtain ⟨hheights, hid⟩ :=
        HeightInfo.mk.inj (hlabel₀.symm.trans (hhi.trans (htops.trans hlabel)))
      have hlen : s₀.mBlocks.length = s.mBlocks.length := by
        rw [← hheight₀, ← hheight, hheights]
      rw [← hlen] at he
      have hsame := d₀.same_below d hunique he₀ he hid
      rw [Nat.sub_add_cancel (List.length_pos_iff.2 d₀.nonempty), List.take_length, hlen,
        List.take_length] at hsame
      have hpads := d₀.pad
      rw [hsame, d.pad] at hpads
      exact hpad.trans (Except.ok.inj hpads).symm
    · unfold getAddendumForHi at hget
      rw [if_neg (fun h => hcase (hquiet.1 h))] at hget
      split at hget
      next => cases hget
      next hlt =>
        split at hget
        next => cases hget
        next =>
          exact d₀.follow_above d hunique he₀ hheight₀ hlabel₀ hpad hm.addendums_nil
            (Nat.not_le.1 hlt) (fun h => hcase (.inr (hnat.symm.trans h)))
            (fun h => hcase (.inl (by rw [← hnat, h]))) hget happly

namespace Devnet

/-- Three blocks of the main line. -/
def minedLine : List Event :=
  [.newBlock (mainBlock 1), .newBlock (mainBlock 2), .newBlock (mainBlock 3)]

/-- A block of another line, found much quicker. -/
def quickBlock (height : Nat) (prevNonce : UInt64) : Block :=
  { altBlock height prevNonce with timestamp := UInt64.ofNat height }

/-- As many blocks of the quick line: they weigh more and take over. -/
def overtakenLine : List Event :=
  minedLine ++
    [.newBlock (quickBlock 1 0), .newBlock (quickBlock 2 101), .newBlock (quickBlock 3 102)]

/-- The scratchpad of the node is that of its blocks, as a check. -/
def padOfBlocks (evs : List Event) : Bool :=
  (run ∅ evs).isSome &&
    DarknetSpace.pushed (pushBlocksScratchpadData env ((node ∅ evs).chain.mBlocks.map (·.bl)) []) =
      some (node ∅ evs).chain.mScratchpad

theorem daemonChain {evs : List Event} (h : padOfBlocks evs = true) :
    DaemonChain env (node ∅ evs).chain := by
  obtain ⟨hrun, hpad⟩ := Bool.and_eq_true_iff.1 h
  exact (reachable_node ∅ evs hrun).daemonChain (eq_pushed (of_decide_eq_true hpad))

/-- No two blocks of the two chains share an id. -/
def idsUnique (evs₀ evs : List Event) : Bool :=
  (node ∅ evs₀).chain.mBlocks.all fun e₀ => (node ∅ evs).chain.mBlocks.all fun e =>
    getBlockHash env e₀.bl != getBlockHash env e.bl || e₀.bl == e.bl

theorem ids_unique {evs₀ evs : List Event} (h : idsUnique evs₀ evs = true) :
    ∀ e₀ ∈ (node ∅ evs₀).chain.mBlocks, ∀ e ∈ (node ∅ evs).chain.mBlocks,
      getBlockHash env e₀.bl = getBlockHash env e.bl → e₀.bl = e.bl := by
  intro e₀ he₀ e he hid
  have hone := List.all_eq_true.1 (List.all_eq_true.1 h e₀ he₀) e he
  rw [hid] at hone
  simpa using hone

/-- A miner that has loaded the scratchpad the node exported. -/
def loadedMiner (evs : List Event) : SimpleMiner :=
  ⟨[], getCurrentHi env (node ∅ evs).chain, (node ∅ evs).chain.mScratchpad⟩

theorem loadedMiner_mHi (evs : List Event) :
    (loadedMiner evs).mHi = getCurrentHi env (node ∅ evs).chain := rfl

theorem loadedMiner_mScratchpad (evs : List Event) :
    (loadedMiner evs).mScratchpad = (node ∅ evs).chain.mScratchpad := rfl

theorem loadedMiner_reached {evs : List Event}
    (hfits : (node ∅ evs).chain.mScratchpad.length * 32 < 2 ^ 64) : (loadedMiner evs).Reached := by
  have hload : loadScratchpadFromFile [1] (some (0, scratchpadFile
      (getCurrentHi env (node ∅ evs).chain) (node ∅ evs).chain.mScratchpad)) 0 =
        some (true, loadedMiner evs) := load_scratchpadFile (by decide) (by decide) _ hfits
  exact .load hload

/-- The miner asks for a job when the daemon has moved on, and both calls succeed. -/
def followed (evs₀ evs : List Event) : Option SimpleMiner :=
  match getAddendumForHi env (node ∅ evs).chain (loadedMiner evs₀).mHi with
  | .ok (true, addms) =>
    match (loadedMiner evs₀).applyAddendums addms with
    | .ok (true, m) => some m
    | _ => none
  | _ => none

theorem followed_some {evs₀ evs : List Event} {m : SimpleMiner} (h : followed evs₀ evs = some m) :
    ∃ addms, getAddendumForHi env (node ∅ evs).chain (loadedMiner evs₀).mHi = .ok (true, addms) ∧
      (loadedMiner evs₀).applyAddendums addms = .ok (true, m) := by
  unfold followed at h
  split at h
  next addms hget =>
    split at h
    next m' happly =>
      cases h
      exact ⟨addms, hget, happly⟩
    next => cases h
  next => cases h

end Devnet

/-- Two blocks more: the miner catches up. -/
theorem miner_follows_daemon_iff_devnet :
    ∃ m, Devnet.followed Devnet.oneBlock Devnet.minedLine = some m ∧
      m.mScratchpad = (Devnet.node ∅ Devnet.minedLine).chain.mScratchpad ∧
      m.mHi = getCurrentHi Devnet.env (Devnet.node ∅ Devnet.minedLine).chain := by
  have eval :
      Devnet.padOfBlocks Devnet.oneBlock = true ∧ Devnet.padOfBlocks Devnet.minedLine = true ∧
      Devnet.idsUnique Devnet.oneBlock Devnet.minedLine = true ∧
      (Devnet.followed Devnet.oneBlock Devnet.minedLine).isSome = true ∧
      (Devnet.node ∅ Devnet.oneBlock).chain.mScratchpad.length * 32 < 2 ^ 64 ∧
      (Devnet.node ∅ Devnet.oneBlock).chain.mBlocks.length = 2 ∧
      (Devnet.node ∅ Devnet.minedLine).chain.mBlocks.length = 4 := by
    decide +kernel
  obtain ⟨hpad₀, hpad, hids, hsome, hfits, hlen₀, hlen⟩ := eval
  obtain ⟨m, hm⟩ := Option.isSome_iff_exists.1 hsome
  obtain ⟨addms, hget, happly⟩ := Devnet.followed_some hm
  have hiff := miner_follows_daemon_iff (Devnet.loadedMiner_reached hfits) (Devnet.daemonChain hpad₀)
    (Devnet.daemonChain hpad) (Devnet.ids_unique hids) (Devnet.loadedMiner_mScratchpad _)
    (Devnet.loadedMiner_mHi _)
  have hgrown : ¬ ((Devnet.node ∅ Devnet.oneBlock).chain.mBlocks.length = 1 ∨
      (Devnet.node ∅ Devnet.oneBlock).chain.mBlocks.length =
        (Devnet.node ∅ Devnet.minedLine).chain.mBlocks.length) := by
    rw [hlen₀, hlen]
    decide
  exact ⟨m, hm, hiff.2 (fun hcase => absurd hcase hgrown) addms m hget happly⟩

/-- A reorganisation to a chain of the same length: the miner is told that there is
nothing to do and stays with the scratchpad of the old chain. -/
theorem miner_misses_equal_split :
    (Devnet.loadedMiner Devnet.minedLine).Reached ∧
      DaemonChain Devnet.env (Devnet.node ∅ Devnet.minedLine).chain ∧
      DaemonChain Devnet.env (Devnet.node ∅ Devnet.overtakenLine).chain ∧
      ∃ m, Devnet.followed Devnet.minedLine Devnet.overtakenLine = some m ∧
        m.mScratchpad ≠ (Devnet.node ∅ Devnet.overtakenLine).chain.mScratchpad ∧
        m.mHi ≠ getCurrentHi Devnet.env (Devnet.node ∅ Devnet.overtakenLine).chain := by
  have eval :
      Devnet.padOfBlocks Devnet.minedLine = true ∧ Devnet.padOfBlocks Devnet.overtakenLine = true ∧
      (Devnet.node ∅ Devnet.minedLine).chain.mScratchpad.length * 32 < 2 ^ 64 ∧
      ((Devnet.followed Devnet.minedLine Devnet.overtakenLine).any fun m =>
        m.mScratchpad ≠ (Devnet.node ∅ Devnet.overtakenLine).chain.mScratchpad ∧
          m.mHi ≠ getCurrentHi Devnet.env (Devnet.node ∅ Devnet.overtakenLine).chain) = true := by
    decide +kernel
  obtain ⟨hpad₀, hpad, hfits, hany⟩ := eval
  obtain ⟨m, hm, hdec⟩ := (Option.any_eq_true _ _).1 hany
  exact ⟨Devnet.loadedMiner_reached hfits, Devnet.daemonChain hpad₀, Devnet.daemonChain hpad, m, hm,
    of_decide_eq_true hdec⟩

end DarknetSpace
