import DarknetSpace.Wallet.Payment

/-!
# Coin selection (`wallet2::select_indices_for_transfer`)

Round by round the loop takes the largest amount there is, until some amount covers
what is still missing: then it takes the smallest such amount and is done. A round
that takes the largest takes an index off the map, so there are at most as many
rounds as indexes, and one more.

The runs of the loop are an inductive relation beside the function with fuel
(`SelectIndicesRun`), which says without fuel what a run is. Main result:
`selectIndices_complete`. The loop always ends; what is selected is in the map, each
index once, and adds up to what is returned; and it is enough exactly if the map as a
whole is.
-/

namespace DarknetSpace

/-- The runs of the loop, from the map, the money and the indexes so far to what is
returned and selected. -/
inductive SelectIndicesRun (neededMoney : UInt64) :
    FreeAmounts → UInt64 → List Nat → UInt64 × List Nat → Prop where
  /-- The condition of the loop fails. -/
  | stop {free : FreeAmounts} {foundMoney : UInt64} {selected : List Nat}
    (h : ¬(foundMoney < neededMoney ∧ free ≠ [])) :
    SelectIndicesRun neededMoney free foundMoney selected (foundMoney, selected)
  /-- `lower_bound` finds enough: `break`. -/
  | covered {free : FreeAmounts} {foundMoney amount : UInt64} {selected is : List Nat} {i : Nat}
    (h : foundMoney < neededMoney ∧ free ≠ [])
    (hfind : (free.find? fun e => decide (neededMoney - foundMoney ≤ e.1)) =
      some (amount, i :: is)) :
    SelectIndicesRun neededMoney free foundMoney selected
      (foundMoney + amount, selected ++ [(i :: is).getLast (List.cons_ne_nil i is)])
  /-- The largest amount goes, and the next round begins. -/
  | largest {free : FreeAmounts} {foundMoney amount : UInt64} {selected is : List Nat} {i : Nat}
    {r : UInt64 × List Nat} (h : foundMoney < neededMoney ∧ free ≠ [])
    (hfind : (free.find? fun e => decide (neededMoney - foundMoney ≤ e.1)) = none)
    (hlast : free.getLast? = some (amount, i :: is))
    (hrest : SelectIndicesRun neededMoney free.popLast (foundMoney + amount)
      (selected ++ [(i :: is).getLast (List.cons_ne_nil i is)]) r) :
    SelectIndicesRun neededMoney free foundMoney selected r

/-- With a round for every index and one more the loop runs to its end. -/
theorem selectIndicesLoop_run {neededMoney : UInt64} {fuel : Nat} {free : FreeAmounts}
    {foundMoney : UInt64} {selected : List Nat} (hfilled : free.Filled)
    (hfuel : free.pairs.length < fuel) :
    SelectIndicesRun neededMoney free foundMoney selected
      (selectIndicesLoop neededMoney fuel free foundMoney selected) := by
  induction fuel generalizing free foundMoney selected with
  | zero => omega
  | succ fuel ih =>
    unfold selectIndicesLoop
    by_cases hgo : foundMoney < neededMoney ∧ free ≠ []
    · rw [if_pos hgo]
      cases hfind : free.find? fun e => decide (neededMoney - foundMoney ≤ e.1) with
      | some e =>
        obtain ⟨amount, is⟩ := e
        cases is with
        | nil => exact absurd rfl (hfilled _ (List.mem_of_find?_eq_some hfind))
        | cons i is => exact .covered hgo hfind
      | none =>
        simp only
        cases hlast : free.getLast? with
        | none => exact absurd (List.getLast?_eq_none_iff.1 hlast) hgo.2
        | some e =>
          obtain ⟨amount, is⟩ := e
          cases is with
          | nil => exact absurd rfl (hfilled _ (List.mem_of_getLast? hlast))
          | cons i is =>
            -- one index less in the map
            obtain ⟨hpop, hfilled'⟩ := pairs_popLast hfilled hlast
            have hcount := hpop.length_eq
            rw [List.length_cons] at hcount
            exact .largest hgo hfind hlast (ih hfilled' (by omega))
    · rw [if_neg hgo]
      exact .stop hgo

theorem length_pairs (free : FreeAmounts) :
    free.pairs.length = (free.map fun e => e.2.length).sum := by
  unfold FreeAmounts.pairs
  rw [List.length_flatMap]
  simp only [List.length_map]

/-- What is selected is in the map, each index once, and adds up to what is
returned; it is enough exactly if the map has enough. -/
theorem selectIndices_complete (free : FreeAmounts) (neededMoney : UInt64) (hfilled : free.Filled)
    (hdistinct : (free.pairs.map Prod.snd).Nodup) (hfits : pairsTotal free.pairs < 2 ^ 64) :
    SelectIndicesRun neededMoney free 0 [] (selectIndicesForTransfer free neededMoney) ∧
    (∃ chosen ⊆ free.pairs, (selectIndicesForTransfer free neededMoney).2 = chosen.map Prod.snd ∧
      (selectIndicesForTransfer free neededMoney).2.Nodup ∧
      (selectIndicesForTransfer free neededMoney).1.toNat = pairsTotal chosen) ∧
    (neededMoney ≤ (selectIndicesForTransfer free neededMoney).1 ↔
      neededMoney.toNat ≤ pairsTotal free.pairs) ∧
    selectIndicesForTransfer free 0 = (0, []) := by
  have hfuel : free.pairs.length < (free.map fun e => e.2.length).sum + 1 := by
    rw [length_pairs]
    exact Nat.lt_succ_self _
  obtain ⟨chosen, rest, hsel, hperm, hwrap, -⟩ := selectIndicesLoop_chosen neededMoney
    ((free.map fun e => e.2.length).sum + 1) 0 [] hfilled
  have htotal : pairsTotal chosen + pairsTotal rest = pairsTotal free.pairs := by
    rw [← pairsTotal_perm hperm]
    unfold pairsTotal
    rw [List.map_append, List.sum_append]
  have hexact : (selectIndicesForTransfer free neededMoney).1.toNat = pairsTotal chosen := by
    rw [UInt64.toNat_zero, Nat.zero_add, Nat.mod_eq_of_lt (by omega)] at hwrap
    exact hwrap
  have hnodup : ((chosen ++ rest).map Prod.snd).Nodup := (hperm.map Prod.snd).nodup_iff.2 hdistinct
  rw [List.map_append] at hnodup
  refine ⟨selectIndicesLoop_run hfilled hfuel, ⟨chosen, ?_, hsel, ?_, hexact⟩, ⟨?_, ?_⟩, ?_⟩
  · intro p hp
    exact hperm.subset (List.mem_append_left _ hp)
  · have hsel' : (selectIndicesForTransfer free neededMoney).2 = chosen.map Prod.snd := hsel
    rw [hsel']
    exact (List.nodup_append.1 hnodup).1
  · intro hle
    rw [UInt64.le_iff_toNat_le, hexact] at hle
    omega
  · intro hle
    refine selectIndicesLoop_enough hfilled hfuel ?_ ?_
    · rw [UInt64.toNat_zero, Nat.zero_add]
      exact hle
    · rw [UInt64.toNat_zero, Nat.zero_add]
      exact hfits
  · -- nothing is less than zero
    unfold selectIndicesForTransfer selectIndicesLoop
    rw [if_neg (fun h => absurd h.1 (by decide))]

/-- Amounts 1, 5 and 10, of which 46 is not to be had. -/
theorem selectIndices_complete_test :
    SelectIndicesRun 46 [(1, [11, 12, 13, 14, 15]), (5, [51, 52]), (10, [101, 102, 103])] 0 []
        (45, [103, 102, 101, 52, 51, 15, 14, 13, 12, 11]) ∧
      ¬(46 : UInt64) ≤ 45 := by
  have hfilled : FreeAmounts.Filled
      [(1, [11, 12, 13, 14, 15]), (5, [51, 52]), (10, [101, 102, 103])] := by
    unfold FreeAmounts.Filled
    decide
  obtain ⟨hrun, -, hiff, -⟩ := selectIndices_complete
    [(1, [11, 12, 13, 14, 15]), (5, [51, 52]), (10, [101, 102, 103])] 46 hfilled (by decide)
    (by decide)
  have hsel : selectIndicesForTransfer
      [(1, [11, 12, 13, 14, 15]), (5, [51, 52]), (10, [101, 102, 103])] 46 =
      (45, [103, 102, 101, 52, 51, 15, 14, 13, 12, 11]) := by
    decide
  rw [hsel] at hrun hiff
  exact ⟨hrun, fun hle => absurd (hiff.1 hle) (by decide)⟩

end DarknetSpace
