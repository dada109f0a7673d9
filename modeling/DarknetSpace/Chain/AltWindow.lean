import DarknetSpace.Chain.Switch

/-!
# The windows of an alternative chain

A block on the main chain is judged by the last entries of `m_blocks`: 735 of
them for the difficulty, 60 for the median timestamp. A block on an alternative
chain has no such array; the windows are stitched together from the main chain
below the split and the alternative entries above it. What they should be is
the window of `branch`, the array `m_blocks` would be after a switch.

For the difficulty they are, for every split and every length of the
alternative chain. For the timestamps they are not: the alternative entries are
never cut down to 60, and the top-up from the main chain stops before the
genesis block unless it starts there.
-/

namespace DarknetSpace

/-- The main chain below `split`, then the alternative entries. -/
def branch (main : List BlockEntry) (split : Nat) (alt : List BlockEntry) : List BlockEntry :=
  main.take split ++ alt

/-- The entries carry consecutive heights, from `split` on. -/
def NumberedFrom (split : Nat) (alt : List BlockEntry) : Prop :=
  ∀ i e, alt[i]? = some e → e.height = split + i

section

variable {main alt : List BlockEntry} {split : Nat}

theorem length_branch (h : split ≤ main.length) :
    (branch main split alt).length = split + alt.length := by
  rw [branch, List.length_append, List.length_take, Nat.min_eq_left h]

/-- A suffix that starts below the split. -/
theorem drop_branch_of_le (h : split ≤ main.length) {k : Nat} (hk : k ≤ split) :
    (branch main split alt).drop k = (main.drop k).take (split - k) ++ alt := by
  have hlen : (main.take split).length = split := by
    rw [List.length_take, Nat.min_eq_left h]
  rw [branch, List.drop_append_of_le_length (by omega), List.drop_take]

/-- A suffix that starts above it. -/
theorem drop_branch_of_ge (h : split ≤ main.length) {k : Nat} (hk : split ≤ k) :
    (branch main split alt).drop k = alt.drop (k - split) := by
  have hlen : (main.take split).length = split := by
    rw [List.length_take, Nat.min_eq_left h]
  rw [branch, List.drop_append, List.drop_eq_nil_of_le (by omega), List.nil_append, hlen]

/-- Where the alternative chain leaves the main one. -/
theorem NumberedFrom.stop (h : NumberedFrom split alt) :
    (alt.head?.map (·.height)).getD (split + alt.length) = split := by
  cases alt with
  | nil => rfl
  | cons e rest => exact h 0 e rfl

/-! ## Difficulty -/

/-- The two functions read the same window. -/
theorem getNextDifficultyForAlternativeChain_branch (hs : 1 ≤ split) (hm : split ≤ main.length)
    (hn : NumberedFrom split alt) :
    getNextDifficultyForAlternativeChain main alt (split + alt.length) =
      .ok (Storage.getDifficultyForNextBlock (branch main split alt)) := by
  unfold getNextDifficultyForAlternativeChain Storage.getDifficultyForNextBlock
    Storage.difficultyBlocks
  simp only [hn.stop, length_branch hm]
  by_cases hk : alt.length < difficultyBlocksCount
  · rw [if_pos hk, if_neg (by omega)]
    -- both skip as many blocks from the bottom
    have hstart : split - min (difficultyBlocksCount - alt.length) split =
        split + alt.length - min (split + alt.length) difficultyBlocksCount := by omega
    rw [hstart]
    generalize split + alt.length - min (split + alt.length) difficultyBlocksCount = o at hstart
    rw [drop_branch_of_le hm (by split <;> omega)]
    rfl
  · rw [if_neg hk]
    -- the window lies inside the alternative chain; the genesis block is out of reach
    have hoff : split + alt.length - min (split + alt.length) difficultyBlocksCount =
        split + (alt.length - difficultyBlocksCount) := by omega
    rw [hoff, if_neg (by omega), drop_branch_of_ge hm (by omega), Nat.add_sub_cancel_left]
    rfl

/-! ## Timestamps -/

/-- The median test of `handle_alternative_block`, for a block on top of `alt`. -/
def altTimestampTest (main : List BlockEntry) (split : Nat) (alt : List BlockEntry) (b : Block) :
    Bool :=
  Storage.checkBlockTimestamp
    (completeTimestampsVector main (split - 1) (alt.map (·.bl.timestamp)).reverse) b

/-- The median test of `check_block_timestamp_main`. -/
def mainTimestampTest (blocks : List BlockEntry) (b : Block) : Bool :=
  Storage.checkBlockTimestamp
    ((blocks.drop (blocks.length - blockchainTimestampCheckWindow)).map (·.bl.timestamp)) b

end

/-- A median does not depend on the order its values come in. -/
theorem median_perm {v w : List UInt64} (h : v.Perm w) : median v = median w := by
  have hsort : v.insertionSort (· ≤ ·) = w.insertionSort (· ≤ ·) := by
    have hp : (v.insertionSort (· ≤ ·)).Perm (w.insertionSort (· ≤ ·)) :=
      ((List.perm_insertionSort _ v).trans h).trans (List.perm_insertionSort _ w).symm
    refine hp.eq_of_pairwise (fun a b _ _ => UInt64.le_antisymm)
      (List.pairwise_insertionSort _ v) (List.pairwise_insertionSort _ w)
  unfold median
  simp only [h.length_eq, hsort]
  by_cases hone : w.length = 1
  · obtain ⟨x, rfl⟩ := List.length_eq_one_iff.1 hone
    rw [List.perm_singleton.1 h]
  · rw [if_neg hone, if_neg hone]

theorem checkBlockTimestamp_perm {v w : List UInt64} (h : v.Perm w) (b : Block) :
    Storage.checkBlockTimestamp v b = Storage.checkBlockTimestamp w b := by
  unfold Storage.checkBlockTimestamp
  rw [h.length_eq, median_perm h]

theorem checkBlockTimestamp_of_short {v : List UInt64}
    (h : v.length < blockchainTimestampCheckWindow) (b : Block) :
    Storage.checkBlockTimestamp v b = true := if_pos h

/-! ### Where the two tests agree -/

section

variable {main alt : List BlockEntry} {split : Nat}

/-- Above the genesis block the top-up stops at it or at the end of the window. -/
theorem completeTimestampsVector_of_two_le (hs : 2 ≤ split) (hm : split ≤ main.length)
    {ts : List UInt64} (hts : ts.length < blockchainTimestampCheckWindow) :
    completeTimestampsVector main (split - 1) ts =
      ts ++ (((main.drop (max 1 (split + ts.length - blockchainTimestampCheckWindow))).take
        (split - max 1 (split + ts.length - blockchainTimestampCheckWindow))).map
          (·.bl.timestamp)).reverse := by
  unfold completeTimestampsVector
  have hstop : split - 1 - (blockchainTimestampCheckWindow - ts.length) + 1 =
      max 1 (split + ts.length - blockchainTimestampCheckWindow) := by omega
  have hcount : split - 1 - (split - 1 - (blockchainTimestampCheckWindow - ts.length)) =
      split - max 1 (split + ts.length - blockchainTimestampCheckWindow) := by omega
  rw [if_neg (by omega)]
  simp only [hstop, hcount]
  rw [if_neg (by omega)]

/-- A block right above the genesis block is topped up with it. -/
theorem completeTimestampsVector_genesis (hm : 1 ≤ main.length) {ts : List UInt64}
    (hts : ts.length < blockchainTimestampCheckWindow) :
    completeTimestampsVector main 0 ts = ts ++ ((main.take 1).map (·.bl.timestamp)).reverse := by
  unfold completeTimestampsVector
  rw [if_neg (by omega)]
  rfl

/-- The same entries, collected from the top down, pass the same test. -/
theorem checkBlockTimestamp_collected (low : List BlockEntry) (b : Block) :
    Storage.checkBlockTimestamp
        ((alt.map (·.bl.timestamp)).reverse ++ (low.map (·.bl.timestamp)).reverse) b =
      Storage.checkBlockTimestamp ((low ++ alt).map (·.bl.timestamp)) b := by
  rw [← List.reverse_append, ← List.map_append]
  exact checkBlockTimestamp_perm (List.reverse_perm _) b

theorem altTimestampTest_eq (hs : 1 ≤ split) (hm : split ≤ main.length)
    (hk : alt.length ≤ blockchainTimestampCheckWindow)
    (hgenesis : split + alt.length = blockchainTimestampCheckWindow → split = 1) (b : Block) :
    altTimestampTest main split alt b = mainTimestampTest (branch main split alt) b := by
  unfold altTimestampTest mainTimestampTest
  rw [length_branch hm]
  have hlen : (alt.map (·.bl.timestamp)).reverse.length = alt.length := by
    rw [List.length_reverse, List.length_map]
  by_cases hfull : alt.length = blockchainTimestampCheckWindow
  · -- the alternative chain is the window
    have hdone : completeTimestampsVector main (split - 1) (alt.map (·.bl.timestamp)).reverse =
        (alt.map (·.bl.timestamp)).reverse := if_pos (.inl (by omega))
    rw [hdone, drop_branch_of_ge hm (by omega)]
    have hdrop : split + alt.length - blockchainTimestampCheckWindow - split = 0 := by omega
    rw [hdrop, List.drop_zero]
    exact checkBlockTimestamp_perm (List.reverse_perm _) b
  · by_cases hone : split = 1
    · subst hone
      rw [completeTimestampsVector_genesis hm (by omega), drop_branch_of_le hm (by omega)]
      have hdrop : 1 + alt.length - blockchainTimestampCheckWindow = 0 := by omega
      rw [hdrop, List.drop_zero]
      exact checkBlockTimestamp_collected _ b
    · rw [completeTimestampsVector_of_two_le (by omega) hm (by omega), hlen]
      by_cases hshort : split + alt.length < blockchainTimestampCheckWindow
      · -- too few blocks for a median on either path
        rw [checkBlockTimestamp_of_short, checkBlockTimestamp_of_short]
        · rw [List.length_map, List.length_drop, length_branch hm]
          omega
        · rw [List.length_append, hlen, List.length_reverse, List.length_map, List.length_take]
          omega
      · rw [Nat.max_eq_right (by omega), drop_branch_of_le hm (by omega)]
        exact checkBlockTimestamp_collected _ b

end

/-! ### Where they do not -/

/-- A block of which only the timestamp matters. -/
def stamped (timestamp : UInt64) : Block where
  majorVersion := 0
  minorVersion := 0
  timestamp
  prevId := nullHash
  nonce := 0
  flags := 0
  minerTx := ⟨⟨0, 0, [], [], []⟩, []⟩
  txHashes := []

/-- Blocks of equal timestamp. -/
def stampedRun (count : Nat) (timestamp : UInt64) : List BlockEntry :=
  List.replicate count (BlockEntry.ofBlock (stamped timestamp))

theorem length_stampedRun (count : Nat) (t : UInt64) : (stampedRun count t).length = count :=
  List.length_replicate

theorem timestamps_stampedRun (count : Nat) (t : UInt64) :
    (stampedRun count t).map (·.bl.timestamp) = List.replicate count t := List.map_replicate

/-- An old majority, outside the last 60, holds the median down. -/
theorem median_low {zeros : Nat} (h : 31 ≤ zeros) :
    median (List.replicate zeros (0 : UInt64) ++ List.replicate 30 100) = 0 := by
  have hlen : (List.replicate zeros (0 : UInt64) ++ List.replicate 30 100).length = zeros + 30 := by
    rw [List.length_append, List.length_replicate, List.length_replicate]
  have hsorted : (List.replicate zeros (0 : UInt64) ++ List.replicate 30 100).insertionSort (· ≤ ·) =
      List.replicate zeros 0 ++ List.replicate 30 100 := by
    refine List.Pairwise.insertionSort_eq (List.pairwise_append.2 ⟨?_, ?_, ?_⟩)
    · exact List.pairwise_replicate.2 (.inr (UInt64.le_refl _))
    · exact List.pairwise_replicate.2 (.inr (UInt64.le_refl _))
    · intro a ha b hb
      rw [List.eq_of_mem_replicate ha, List.eq_of_mem_replicate hb]
      decide
  have hlow : ∀ i, i < zeros →
      (List.replicate zeros (0 : UInt64) ++ List.replicate 30 100).getD i 0 = 0 := by
    intro i hi
    rw [List.getD_eq_getElem?_getD,
      List.getElem?_append_left (by rw [List.length_replicate]; exact hi),
      List.getElem?_replicate_of_lt hi]
    rfl
  unfold median
  rw [hsorted, hlen, if_neg (by omega), if_neg (by omega)]
  simp only [hlow _ (show (zeros + 30) / 2 < zeros by omega),
    hlow _ (show (zeros + 30) / 2 - 1 < zeros by omega), hlen]
  split <;> rfl

/-- An alternative chain of more than 60 blocks that has just stepped forward:
its last 60 blocks refuse a timestamp that its whole length lets pass. -/
theorem altTimestampTest_ne_of_long (split k : Nat) (hk : blockchainTimestampCheckWindow < k) :
    altTimestampTest (stampedRun split 0) split (stampedRun (k - 30) 0 ++ stampedRun 30 100)
        (stamped 10) = true ∧
      mainTimestampTest (branch (stampedRun split 0) split
        (stampedRun (k - 30) 0 ++ stampedRun 30 100)) (stamped 10) = false := by
  have hwin : blockchainTimestampCheckWindow = 60 := rfl
  have hlen : (stampedRun (k - 30) 0 ++ stampedRun 30 100).length = k := by
    rw [List.length_append, length_stampedRun, length_stampedRun]
    omega
  constructor
  · unfold altTimestampTest
    have hdone : ∀ ts : List UInt64, ts.length = k →
        completeTimestampsVector (stampedRun split 0) (split - 1) ts = ts :=
      fun ts hts => if_pos (.inl (by omega))
    rw [hdone _ (by rw [List.length_reverse, List.length_map, hlen]),
      checkBlockTimestamp_perm (List.reverse_perm _), List.map_append, timestamps_stampedRun,
      timestamps_stampedRun]
    unfold Storage.checkBlockTimestamp
    rw [median_low (by omega)]
    split <;> rfl
  · unfold mainTimestampTest
    have hm : split ≤ (stampedRun split 0).length := (length_stampedRun split 0).ge
    have hlast : (stampedRun (k - 30) 0 ++ stampedRun 30 100).drop (k - 60) =
        stampedRun 30 0 ++ stampedRun 30 100 := by
      rw [List.drop_append_of_le_length (by rw [length_stampedRun]; omega)]
      unfold stampedRun
      rw [List.drop_replicate, show k - 30 - (k - 60) = 30 by omega]
    rw [length_branch hm, hlen, drop_branch_of_ge hm (by omega),
      show split + k - blockchainTimestampCheckWindow - split = k - 60 by omega, hlast]
    decide +kernel

/-- Exactly 60 blocks: the alternative path is one timestamp short of a median. -/
theorem altTimestampTest_ne_of_sixty (split k above : Nat) (hs : 2 ≤ split)
    (hk : split + k = blockchainTimestampCheckWindow) :
    altTimestampTest (stampedRun (split + above) 100) split (stampedRun k 100) (stamped 10) = true ∧
      mainTimestampTest (branch (stampedRun (split + above) 100) split (stampedRun k 100))
        (stamped 10) = false := by
  have hm : split ≤ (stampedRun (split + above) 100).length := by
    rw [length_stampedRun]
    omega
  have hlen : ((stampedRun k 100).map (·.bl.timestamp)).reverse.length = k := by
    rw [List.length_reverse, List.length_map, length_stampedRun]
  constructor
  · unfold altTimestampTest
    rw [completeTimestampsVector_of_two_le hs hm (by omega), hlen, hk, Nat.sub_self]
    apply checkBlockTimestamp_of_short
    rw [List.length_append, hlen, List.length_reverse, List.length_map, List.length_take]
    omega
  · unfold mainTimestampTest
    have hb : branch (stampedRun (split + above) 100) split (stampedRun k 100) =
        stampedRun blockchainTimestampCheckWindow 100 := by
      unfold branch stampedRun
      rw [List.take_replicate, Nat.min_eq_left (by omega), List.replicate_append_replicate, hk]
    rw [hb]
    decide +kernel

/-- The median tests of the two paths agree on all chains of given sizes
exactly when the alternative chain fits the window and, together with the main
chain below it, does not make up 60 blocks (a split above the genesis block
apart). -/
theorem timestamp_tests_agree_iff (split k : Nat) (hs : 1 ≤ split) :
    (∀ main alt b, split ≤ main.length → alt.length = k →
      altTimestampTest main split alt b = mainTimestampTest (branch main split alt) b) ↔
      k ≤ blockchainTimestampCheckWindow ∧
        (split + k = blockchainTimestampCheckWindow → split = 1) := by
  constructor
  · intro h
    have hmain : ∀ t, split ≤ (stampedRun split t).length := fun t => (length_stampedRun split t).ge
    constructor
    · by_contra hk
      obtain ⟨halt, hmt⟩ := altTimestampTest_ne_of_long split k (by omega)
      have hlen : (stampedRun (k - 30) 0 ++ stampedRun 30 100).length = k := by
        have hwin : blockchainTimestampCheckWindow = 60 := rfl
        rw [List.length_append, length_stampedRun, length_stampedRun]
        omega
      have heq := h _ _ (stamped 10) (hmain 0) hlen
      exact Bool.noConfusion (halt.symm.trans (heq.trans hmt))
    · intro hk
      by_contra hone
      obtain ⟨halt, hmt⟩ := altTimestampTest_ne_of_sixty split k 0 (by omega) hk
      have heq := h _ _ (stamped 10) (hmain 100) (length_stampedRun k 100)
      exact Bool.noConfusion (halt.symm.trans (heq.trans hmt))
  · intro ⟨hk, hgenesis⟩ main alt b hm hlen
    subst hlen
    exact altTimestampTest_eq hs hm hk hgenesis b

theorem timestamp_tests_agree_iff_above_genesis :
    1 ≤ 1 ∧ ((∀ main alt b, 1 ≤ main.length → alt.length = 59 →
      altTimestampTest main 1 alt b = mainTimestampTest (branch main 1 alt) b) ↔
      59 ≤ blockchainTimestampCheckWindow ∧ (1 + 59 = blockchainTimestampCheckWindow → 1 = 1)) :=
  ⟨by decide, timestamp_tests_agree_iff 1 59 (by decide)⟩

/-- A block beside the one at height 60, on a chain of 61 blocks. -/
theorem timestamp_tests_disagree_at_sixty :
    ¬ ∀ (split : Nat) (main alt : List BlockEntry) (b : Block), 1 ≤ split → split ≤ main.length →
      altTimestampTest main split alt b = mainTimestampTest (branch main split alt) b := by
  intro h
  obtain ⟨halt, hmt⟩ := altTimestampTest_ne_of_sixty 60 0 1 (by decide) rfl
  have heq := h 60 (stampedRun 61 100) (stampedRun 0 100) (stamped 10) (by decide) (by decide)
  exact Bool.noConfusion (halt.symm.trans (heq.trans hmt))

end DarknetSpace
