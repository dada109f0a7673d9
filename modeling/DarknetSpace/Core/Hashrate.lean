import DarknetSpace.Core.FarLine
import DarknetSpace.Core.MaxUsed

/-!
# The hash rate of the last blocks (`get_current_hashrate`)

The work of the last blocks is divided by the time between the first and the
last of them. A block may be as old as the median of the sixty below it, and as
young as the clock allows, so times stand still or go back within a window of
any size. `next_difficulty` takes a span of zero for one second; here the
division throws, and a negative span is one of many years.

`AcceptedChain` is what the source checks of the times and the work along a chain, and
`RateWindow` the blocks the estimate looks at. The estimate is said without words of 64
bits: the work of the window over its span. Main result: `hashrate_exact_iff`, that the
division happens and gives this, exactly where the window ends later than it begins.
That there are accepted chains where it does not is the last section.
-/

namespace DarknetSpace

/-! ## The estimate -/

/-- How `get_current_hashrate` can throw: reading the chain, or in the division
of the multiprecision library. -/
inductive HashrateExn where
  | chain (e : Exn)
  | divisionByZero
  deriving DecidableEq

/-- `get_current_hashrate`. -/
def Storage.getCurrentHashrate (s : Storage) (aproxCount : Nat) : Except HashrateExn UInt64 :=
  if s.mBlocks.length ≤ aproxCount then .ok 0
  else
    match s.blockAt (s.mBlocks.length - 1), s.blockAt (s.mBlocks.length - aproxCount) with
    | .error e, _ | _, .error e => .error (.chain e)
    | .ok back, .ok first =>
      let span := back.bl.timestamp - first.bl.timestamp
      if span = 0 then .error .divisionByZero
      else
        .ok (UInt64.ofNat
          (sub128 back.cumulativeDifficulty first.cumulativeDifficulty / span.toNat))

/-! ## Accepted chains -/

/-- Every block passed `check_block_timestamp_main` on the blocks below it, by
whatever the clock said then, and was given its weight. -/
structure AcceptedChain (bs : List BlockEntry) : Prop where
  times : ∀ i e, bs[i]? = some e → ∃ now, Storage.checkBlockTimestampMain now (bs.take i) e.bl = true
  weighed : ∀ i e, bs[i]? = some e → e.cumulativeDifficulty = nextWeight (bs.take i)

/-- The difficulty of so many blocks from one on. -/
def workFrom (bs : List BlockEntry) (i : Nat) : (count : Nat) → Nat
  | 0 => 0
  | count + 1 => workFrom bs i count + Storage.getDifficultyForNextBlock (bs.take (i + count))

/-- The work of the last `aprox_count - 1` blocks. -/
def lastWork (bs : List BlockEntry) (aproxCount : Nat) : Nat :=
  workFrom bs (bs.length - (aproxCount - 1)) (aproxCount - 1)

/-- The first and the last block of the window, on a chain that is long enough. -/
structure RateWindow (bs : List BlockEntry) (aproxCount : Nat) (first top : BlockEntry) : Prop where
  long : aproxCount < bs.length
  first : bs[bs.length - aproxCount]? = some first
  top : bs[bs.length - 1]? = some top

/-- There is an estimate: on a chain that is long enough it is the work by the
time, which is positive and does not wrap. -/
def Storage.HashrateExact (s : Storage) (aproxCount : Nat) : Prop :=
  ∃ rate, s.getCurrentHashrate aproxCount = .ok rate ∧
    ∀ first top, RateWindow s.mBlocks aproxCount first top →
      ((top.bl.timestamp - first.bl.timestamp).toNat : Int) =
          top.bl.timestamp.toNat - first.bl.timestamp.toNat ∧
        0 < (top.bl.timestamp - first.bl.timestamp).toNat ∧
        rate.toNat = lastWork s.mBlocks aproxCount / (top.bl.timestamp - first.bl.timestamp).toNat

/-- The top block is younger than the first of the window, with less work a
second between them than a word holds. -/
def WindowRises (bs : List BlockEntry) (aproxCount : Nat) : Prop :=
  ∀ first top, RateWindow bs aproxCount first top → first.bl.timestamp < top.bl.timestamp ∧
    lastWork bs aproxCount < 2 ^ 64 * (top.bl.timestamp.toNat - first.bl.timestamp.toNat)

section

variable {bs : List BlockEntry} {e : BlockEntry}

/-- A block more. -/
theorem AcceptedChain.append (h : AcceptedChain bs) {now : Nat}
    (htime : Storage.checkBlockTimestampMain now bs e.bl = true)
    (hweight : e.cumulativeDifficulty = nextWeight bs) : AcceptedChain (bs ++ [e]) := by
  have hcases : ∀ (i : Nat) e', (bs ++ [e])[i]? = some e' →
      (i < bs.length ∧ bs[i]? = some e') ∨ (i = bs.length ∧ e' = e) := by
    intro i e' hi
    by_cases hlt : i < bs.length
    · rw [List.getElem?_append_left hlt] at hi
      exact .inl ⟨hlt, hi⟩
    · have hlen := (List.getElem?_eq_some_iff.1 hi).1
      rw [List.length_append, List.length_singleton] at hlen
      have hend : i = bs.length := by omega
      rw [hend, List.getElem?_concat_length] at hi
      exact .inr ⟨hend, (Option.some.inj hi).symm⟩
  refine ⟨?_, ?_⟩
  · intro i e' hi
    rcases hcases i e' hi with ⟨hlt, hi⟩ | ⟨rfl, rfl⟩
    · rw [List.take_append_of_le_length hlt.le]
      exact h.times i e' hi
    · rw [List.take_left]
      exact ⟨now, htime⟩
  · intro i e' hi
    rcases hcases i e' hi with ⟨hlt, hi⟩ | ⟨rfl, rfl⟩
    · rw [List.take_append_of_le_length hlt.le]
      exact h.weighed i e' hi
    · rw [List.take_left]
      exact hweight

/-- Only times and weights matter. -/
theorem AcceptedChain.congr {bs' : List BlockEntry} (h : AcceptedChain bs)
    (hw : weights bs' = weights bs) : AcceptedChain bs' := by
  have htake : ∀ i, weights (bs'.take i) = weights (bs.take i) := by
    intro i
    unfold weights at hw ⊢
    rw [List.map_take, List.map_take, hw]
  have hentry : ∀ (i : Nat) (e' : BlockEntry), bs'[i]? = some e' → ∃ e, bs[i]? = some e ∧
      e.bl.timestamp = e'.bl.timestamp ∧ e.cumulativeDifficulty = e'.cumulativeDifficulty := by
    intro i e' hi
    have hmap : (weights bs)[i]? = some (e'.bl.timestamp, e'.cumulativeDifficulty) := by
      rw [← hw, weights, List.getElem?_map, hi]
      rfl
    rw [weights, List.getElem?_map] at hmap
    obtain ⟨e, he, heq⟩ := Option.map_eq_some_iff.1 hmap
    exact ⟨e, he, congrArg Prod.fst heq, congrArg Prod.snd heq⟩
  refine ⟨?_, ?_⟩
  · intro i e' hi
    obtain ⟨e, he, htime, -⟩ := hentry i e' hi
    obtain ⟨now, hnow⟩ := h.times i e he
    refine ⟨now, ?_⟩
    have htimes : ∀ k, ((bs'.take i).drop k).map (·.bl.timestamp) =
        ((bs.take i).drop k).map (·.bl.timestamp) := by
      intro k
      have hfst := congrArg (fun l => (l.map Prod.fst).drop k) (htake i)
      unfold weights at hfst
      simp only [List.map_map, ← List.map_drop] at hfst
      exact hfst
    have hlength : (bs'.take i).length = (bs.take i).length := by
      have := congrArg List.length (htake i)
      unfold weights at this
      rw [List.length_map, List.length_map] at this
      exact this
    unfold Storage.checkBlockTimestampMain Storage.checkBlockTimestamp at hnow ⊢
    rw [hlength, htimes, ← htime]
    exact hnow
  · intro i e' hi
    obtain ⟨e, he, -, hweight⟩ := hentry i e' hi
    rw [← hweight, h.weighed i e he, nextWeight_congr (htake i)]

/-- From one block to another the work in between is added. -/
theorem AcceptedChain.weight_add (h : AcceptedChain bs) {i count : Nat} {first last : BlockEntry}
    (hfirst : bs[i]? = some first) (hlast : bs[i + count]? = some last) :
    last.cumulativeDifficulty =
      (first.cumulativeDifficulty + workFrom bs (i + 1) count) % 2 ^ 128 := by
  induction count generalizing last with
  | zero =>
    rw [Nat.add_zero, hfirst] at hlast
    cases hlast
    unfold workFrom
    rw [Nat.add_zero, h.weighed i first hfirst]
    unfold nextWeight
    rw [Nat.mod_mod]
  | succ count ih =>
    have hlen := (List.getElem?_eq_some_iff.1 hlast).1
    obtain ⟨prev, hprev⟩ : ∃ prev, bs[i + count]? = some prev :=
      ⟨_, List.getElem?_eq_getElem (by omega)⟩
    have hweight := h.weighed _ last hlast
    have hbelow : cumulativeDifficulty (bs.take (i + (count + 1))) = prev.cumulativeDifficulty :=
      cumulativeDifficulty_take (by omega) hprev
    unfold nextWeight at hweight
    unfold workFrom
    rw [hweight, hbelow, ih hprev, show i + 1 + count = i + (count + 1) by omega]
    omega

end

/-! ## Whether there is an estimate -/

section

variable {s : Storage} {aproxCount : Nat} {first top : BlockEntry}

theorem getCurrentHashrate_window (h : RateWindow s.mBlocks aproxCount first top) :
    s.getCurrentHashrate aproxCount =
      if top.bl.timestamp - first.bl.timestamp = 0 then .error .divisionByZero
      else
        .ok (UInt64.ofNat (sub128 top.cumulativeDifficulty first.cumulativeDifficulty /
          (top.bl.timestamp - first.bl.timestamp).toNat)) := by
  have hlong := h.long
  unfold Storage.getCurrentHashrate Storage.blockAt
  rw [if_neg (by omega), h.first, h.top]

/-- What is divided is the work of the window, as far as 128 bits go. -/
theorem RateWindow.work (h : RateWindow s.mBlocks aproxCount first top) (hc : 2 ≤ aproxCount)
    (haccepted : AcceptedChain s.mBlocks) :
    sub128 top.cumulativeDifficulty first.cumulativeDifficulty =
      lastWork s.mBlocks aproxCount % 2 ^ 128 := by
  have hlong := h.long
  have htop : s.mBlocks[s.mBlocks.length - aproxCount + (aproxCount - 1)]? = some top := by
    rw [show s.mBlocks.length - aproxCount + (aproxCount - 1) = s.mBlocks.length - 1 by omega]
    exact h.top
  have hadd := haccepted.weight_add h.first htop
  rw [show s.mBlocks.length - aproxCount + 1 = s.mBlocks.length - (aproxCount - 1) by omega] at hadd
  have hfirst := haccepted.weighed _ first h.first
  unfold nextWeight at hfirst
  change _ = (_ + lastWork s.mBlocks aproxCount) % _ at hadd
  unfold sub128
  omega

/-- **The hash rate is defined**, and is what it says, on the accepted chains
whose window ends later than it begins. -/
theorem hashrate_exact_iff (haccepted : AcceptedChain s.mBlocks) (hc : 2 ≤ aproxCount) :
    s.HashrateExact aproxCount ↔ WindowRises s.mBlocks aproxCount := by
  constructor
  · rintro ⟨rate, hrate, hexact⟩ first top hwindow
    obtain ⟨hspan, hpos, hvalue⟩ := hexact first top hwindow
    have hlt : first.bl.timestamp.toNat < top.bl.timestamp.toNat := by omega
    refine ⟨UInt64.lt_iff_toNat_lt.2 hlt, ?_⟩
    rw [show top.bl.timestamp.toNat - first.bl.timestamp.toNat =
      (top.bl.timestamp - first.bl.timestamp).toNat by omega]
    rw [← Nat.div_lt_iff_lt_mul hpos, ← hvalue]
    exact rate.toNat_lt
  · intro hrises
    by_cases hlong : aproxCount < s.mBlocks.length
    · obtain ⟨first, hfirst⟩ : ∃ first, s.mBlocks[s.mBlocks.length - aproxCount]? = some first :=
        ⟨_, List.getElem?_eq_getElem (by omega)⟩
      obtain ⟨top, htop⟩ : ∃ top, s.mBlocks[s.mBlocks.length - 1]? = some top :=
        ⟨_, List.getElem?_eq_getElem (by omega)⟩
      have hwindow : RateWindow s.mBlocks aproxCount first top := ⟨hlong, hfirst, htop⟩
      obtain ⟨hyounger, hwork⟩ := hrises first top hwindow
      have hlt := UInt64.lt_iff_toNat_lt.1 hyounger
      have hspan : (top.bl.timestamp - first.bl.timestamp).toNat =
          top.bl.timestamp.toNat - first.bl.timestamp.toNat :=
        UInt64.toNat_sub_of_le _ _ (UInt64.le_of_lt hyounger)
      have hpos : 0 < (top.bl.timestamp - first.bl.timestamp).toNat := by omega
      have hnonzero : ¬ top.bl.timestamp - first.bl.timestamp = 0 := by
        intro hzero
        rw [hzero] at hpos
        exact absurd hpos (by decide)
      rw [← hspan] at hwork
      have hquotient := (Nat.div_lt_iff_lt_mul hpos).2 hwork
      have hspanLt := (top.bl.timestamp - first.bl.timestamp).toNat_lt
      -- so much work fits in 128 bits
      have hfits : lastWork s.mBlocks aproxCount % 2 ^ 128 = lastWork s.mBlocks aproxCount := by
        apply Nat.mod_eq_of_lt
        calc lastWork s.mBlocks aproxCount
            < 2 ^ 64 * (top.bl.timestamp - first.bl.timestamp).toNat := hwork
          _ ≤ 2 ^ 64 * 2 ^ 64 := Nat.mul_le_mul_left _ hspanLt.le
          _ = 2 ^ 128 := by decide
      refine ⟨UInt64.ofNat (sub128 top.cumulativeDifficulty first.cumulativeDifficulty /
        (top.bl.timestamp - first.bl.timestamp).toNat), ?_, ?_⟩
      · rw [getCurrentHashrate_window hwindow, if_neg hnonzero]
      · intro first' top' hwindow'
        have hfirst' := hwindow'.first
        have htop' := hwindow'.top
        rw [hfirst] at hfirst'
        rw [htop] at htop'
        cases hfirst'
        cases htop'
        refine ⟨by omega, hpos, ?_⟩
        rw [hwindow.work hc haccepted, hfits]
        exact UInt64.toNat_ofNat_of_lt' hquotient
    · refine ⟨0, ?_, ?_⟩
      · unfold Storage.getCurrentHashrate
        rw [if_pos (by omega)]
      · intro first top hwindow
        exact absurd hwindow.long hlong

end

/-! ## The main chain -/

theorem checkBlockTimestampMain_of_header {env : Env} {now : Nat} {s : Storage} {bl : Block}
    (h : checkBlockHeader env now s bl = none) :
    Storage.checkBlockTimestampMain now s.mBlocks bl = true := by
  unfold checkBlockHeader at h
  split at h
  · cases h
  · split at h
    · cases h
    · next htime => exact not_not.1 htime

/-- The chain of a node that pushes and pops blocks is an accepted one. -/
theorem Tower.accepted {env : Env} {s : Storage} (h : Tower env s) : AcceptedChain s.mBlocks := by
  induction h with
  | base view =>
    have hempty : AcceptedChain [] := by
      refine ⟨?_, ?_⟩
      · intro i e he
        cases he
      · intro i e he
        cases he
    exact hempty.congr (weights_congr view.blocks)
  | @block now bl n n' d _ sound c _ view ih =>
    have htime : Storage.checkBlockTimestampMain now n.chain.mBlocks bl = true :=
      checkBlockTimestampMain_of_header c.header
    let e : BlockEntry :=
      { BlockEntry.ofBlock bl with cumulativeDifficulty := nextWeight n.chain.mBlocks }
    have hnext : AcceptedChain (n.chain.mBlocks ++ [e]) := ih.append htime rfl
    refine hnext.congr ?_
    rw [weights_congr view.blocks, c.weights_eq sound, weights_append]
    rfl

/-! ## Blocks that stand still -/

/-- An entry on top of `bs` with a block of that time. -/
def stillEntry (t : UInt64) (bs : List BlockEntry) : BlockEntry :=
  { BlockEntry.ofBlock { Devnet.genesis with timestamp := t } with
    cumulativeDifficulty := nextWeight bs }

def standStill (t : UInt64) : (count : Nat) → List BlockEntry → List BlockEntry
  | 0, bs => bs
  | count + 1, bs => standStill t count (bs ++ [stillEntry t bs])

section

variable {t : UInt64} {bs : List BlockEntry}

/-- A block no older than any below it is accepted as soon as the clock gets
there. -/
theorem checkBlockTimestampMain_still (h : ∀ e ∈ bs, e.bl.timestamp ≤ t) (ht : t.toNat < 2 ^ 63) :
    Storage.checkBlockTimestampMain t.toNat bs (stillEntry t bs).bl = true := by
  unfold Storage.checkBlockTimestampMain Storage.checkBlockTimestamp
  change (if t.toNat > t.toNat + currencyBlockFutureTimeLimit then _ else _) = _
  rw [if_neg (by omega)]
  split
  · rfl
  · apply decide_eq_true
    rw [UInt64.not_lt]
    apply median_le _ ht
    intro x hx
    obtain ⟨e, he, rfl⟩ := List.mem_map.1 hx
    exact h e (List.mem_of_mem_drop he)

theorem standStill_accepted (count : Nat) (haccepted : AcceptedChain bs)
    (h : ∀ e ∈ bs, e.bl.timestamp ≤ t) (ht : t.toNat < 2 ^ 63) :
    AcceptedChain (standStill t count bs) ∧
      ∃ more, standStill t count bs = bs ++ more ∧ more.length = count ∧
        ∀ e ∈ more, e.bl.timestamp = t := by
  induction count generalizing bs with
  | zero =>
    refine ⟨haccepted, [], (List.append_nil bs).symm, rfl, ?_⟩
    intro e he
    cases he
  | succ count ih =>
    have hnext : ∀ e ∈ bs ++ [stillEntry t bs], e.bl.timestamp ≤ t := by
      intro e he
      rcases List.mem_append.1 he with he | he
      · exact h e he
      · rw [List.mem_singleton.1 he]
        exact UInt64.le_refl t
    have hchain := haccepted.append (e := stillEntry t bs) (checkBlockTimestampMain_still h ht) rfl
    obtain ⟨hall, more, heq, hlength, htimes⟩ := ih hchain hnext
    unfold standStill
    refine ⟨hall, stillEntry t bs :: more, ?_, ?_, ?_⟩
    · rw [heq, List.append_assoc]
      rfl
    · rw [List.length_cons, hlength]
    · intro e he
      rcases List.mem_cons.1 he with rfl | he
      · rfl
      · exact htimes e he

/-- No count of blocks is safe: every accepted chain goes on to one where the
division throws. -/
theorem hashrate_undefined_ahead {s : Storage} {aproxCount : Nat} (hc : 2 ≤ aproxCount)
    (haccepted : AcceptedChain s.mBlocks) (h : ∀ e ∈ s.mBlocks, e.bl.timestamp ≤ t)
    (ht : t.toNat < 2 ^ 63) :
    ∃ more, AcceptedChain (s.mBlocks ++ more) ∧
      { s with mBlocks := s.mBlocks ++ more }.getCurrentHashrate aproxCount =
        .error .divisionByZero := by
  obtain ⟨hall, more, heq, hlength, htimes⟩ :=
    standStill_accepted (aproxCount + 1) haccepted h ht
  rw [heq] at hall
  refine ⟨more, hall, ?_⟩
  have hread : ∀ i, i < more.length → ∃ e, (s.mBlocks ++ more)[s.mBlocks.length + i]? = some e ∧
      e.bl.timestamp = t := by
    intro i hi
    refine ⟨more[i], ?_, htimes _ (List.getElem_mem hi)⟩
    rw [List.getElem?_append_right (by omega), Nat.add_sub_cancel_left]
    exact List.getElem?_eq_getElem hi
  obtain ⟨first, hfirst, hfirstTime⟩ := hread 1 (by omega)
  obtain ⟨top, htop, htopTime⟩ := hread aproxCount (by omega)
  have hlen : (s.mBlocks ++ more).length = s.mBlocks.length + (aproxCount + 1) := by
    rw [List.length_append, hlength]
  have hwindow : RateWindow (s.mBlocks ++ more) aproxCount first top := by
    refine ⟨by omega, ?_, ?_⟩
    · rw [hlen, show s.mBlocks.length + (aproxCount + 1) - aproxCount = s.mBlocks.length + 1 by omega]
      exact hfirst
    · rw [hlen, show s.mBlocks.length + (aproxCount + 1) - 1 = s.mBlocks.length + aproxCount by omega]
      exact htop
  rw [getCurrentHashrate_window (s := { s with mBlocks := s.mBlocks ++ more }) hwindow,
    hfirstTime, htopTime, UInt64.sub_self, if_pos rfl]

end

namespace Devnet

/-- Two blocks on the genesis block, the second of that time. -/
def timedLine (time : UInt64) : Option Node :=
  pushAll [genesis, mainBlock 1, { mainBlock 2 with timestamp := time }] (Node.initial ∅)

def timedNode (time : UInt64) : Node := (timedLine time).getD (Node.initial ∅)

theorem pushPopRun_timedNode {time : UInt64} (h : (timedLine time).isSome = true) :
    PushPopRun env (timedNode time) := by
  obtain ⟨n, hn⟩ := Option.isSome_iff_exists.1 h
  rw [timedNode, hn]
  exact pushPopRun_of_pushAll (.start ∅) hn

end Devnet

/-- One unit of work in a minute. -/
theorem hashrate_exact_minute :
    ∃ n, PushPopRun Devnet.env n ∧ n.chain.mBlocks.map (·.bl.timestamp) = [0, 60, 120] ∧
      n.chain.HashrateExact 2 := by
  have heval : (Devnet.timedLine 120).isSome = true ∧
      (Devnet.timedNode 120).chain.mBlocks.map (·.bl.timestamp) = [0, 60, 120] ∧
      lastWork (Devnet.timedNode 120).chain.mBlocks 2 = 1 := by
    decide +kernel
  obtain ⟨hrun, htimes, hwork⟩ := heval
  have hpushed := Devnet.pushPopRun_timedNode hrun
  generalize Devnet.timedNode 120 = n at htimes hwork hpushed
  refine ⟨n, hpushed, htimes, ?_⟩
  refine (hashrate_exact_iff hpushed.tower.1.accepted (by decide)).2 ?_
  intro first top hwindow
  have hlength : n.chain.mBlocks.length = 3 := by
    have := congrArg List.length htimes
    rw [List.length_map] at this
    exact this
  have hread : ∀ (i : Nat) e, n.chain.mBlocks[i]? = some e →
      ([0, 60, 120] : List UInt64)[i]? = some e.bl.timestamp := by
    intro i e hi
    rw [← htimes, List.getElem?_map, hi]
    rfl
  have hfirst := hread _ _ hwindow.first
  have htop := hread _ _ hwindow.top
  rw [hlength] at hfirst htop
  rw [← Option.some.inj hfirst, ← Option.some.inj htop, hwork]
  decide

/-- The top block stands still, or goes back by a minute. -/
theorem hashrate_undefined :
    (∃ n, PushPopRun Devnet.env n ∧ AcceptedChain n.chain.mBlocks ∧
      n.chain.getCurrentHashrate 2 = .error .divisionByZero) ∧
    ∃ n first top, PushPopRun Devnet.env n ∧ AcceptedChain n.chain.mBlocks ∧
      RateWindow n.chain.mBlocks 2 first top ∧
      (top.bl.timestamp - first.bl.timestamp).toNat = 2 ^ 64 - 60 := by
  have heval : (Devnet.timedLine 60).isSome = true ∧
      (Devnet.timedNode 60).chain.getCurrentHashrate 2 = .error .divisionByZero := by
    decide +kernel
  have hback : (Devnet.timedLine 0).isSome = true ∧
      (Devnet.timedNode 0).chain.mBlocks.map (·.bl.timestamp) = [0, 60, 0] := by
    decide +kernel
  obtain ⟨hrun, hzero⟩ := heval
  obtain ⟨hrun', htimes⟩ := hback
  have hpushed := Devnet.pushPopRun_timedNode hrun
  have hpushed' := Devnet.pushPopRun_timedNode hrun'
  refine ⟨⟨_, hpushed, hpushed.tower.1.accepted, hzero⟩, ?_⟩
  generalize Devnet.timedNode 0 = n at htimes hpushed'
  have hlength : n.chain.mBlocks.length = 3 := by
    have := congrArg List.length htimes
    rw [List.length_map] at this
    exact this
  obtain ⟨first, hfirst⟩ : ∃ first, n.chain.mBlocks[1]? = some first :=
    ⟨_, List.getElem?_eq_getElem (by omega)⟩
  obtain ⟨top, htop⟩ : ∃ top, n.chain.mBlocks[2]? = some top :=
    ⟨_, List.getElem?_eq_getElem (by omega)⟩
  have hwindow : RateWindow n.chain.mBlocks 2 first top := by
    refine ⟨by omega, ?_, ?_⟩
    · rw [hlength]
      exact hfirst
    · rw [hlength]
      exact htop
  refine ⟨n, first, top, hpushed', hpushed'.tower.1.accepted, hwindow, ?_⟩
  have hfirstTime := congrArg (·[1]?) htimes
  have htopTime := congrArg (·[2]?) htimes
  simp only [List.getElem?_map, hfirst, htop, Option.map_some] at hfirstTime htopTime
  rw [Option.some.inj hfirstTime, Option.some.inj htopTime]
  decide

end DarknetSpace
