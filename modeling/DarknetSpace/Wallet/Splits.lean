import DarknetSpace.Wallet.Transfer

/-!
# Amounts taken apart

A transfer hands its amounts to a `SplitStrategy`, which says how the destinations
and the change become outputs. There are two, and both work on the digits of an
amount (`decompose_amount_into_digits`): one output for each digit that is not zero,
or as many outputs of one size as the order asks for.

Whatever the strategy does, the amounts must come out whole. `decomposeCalls_sum`
says it of one amount, whose digits and dust add up to it again; `splitDestination`,
the loop over all destinations and the change follow from it.

`Splits` collects what a transfer needs of a strategy: every destination becomes
entries to its own address that add up to its amount, the change too but for its
dust, and no entry is empty. Main results: `digitSplitStrategy_splits` and
`nullSplitStrategy_splits`. The second loop counts down an amount and need not end;
`nullSplitLoop_ends` says when it does.
-/

namespace DarknetSpace

open StateExn

/-- What the entries come to. -/
def entriesTotal (des : List TxDestinationEntry) : Nat := (des.map (·.amount.toNat)).sum

/-! ## Digits -/

/-- The dust a call hands over. -/
def DigitCall.dust? : DigitCall → Option Nat
  | .chunk _ => none
  | .dust n => some n

section

variable {threshold fuel amount order dust : Nat} {handled : Bool}

theorem dustCalls_amounts (dust : Nat) (handled : Bool) :
    (dustCalls dust handled).map DigitCall.amount = dustLeft dust handled := by
  unfold dustCalls dustLeft
  split
  · rfl
  · rfl

/-- The amounts are those of the digits, whichever handler gets them. -/
theorem digitCalls_amounts (threshold fuel amount order dust : Nat) (handled : Bool) :
    (digitCalls threshold fuel amount order dust handled).map DigitCall.amount =
      decomposeDigits threshold fuel amount order dust handled := by
  induction fuel generalizing amount order dust handled with
  | zero => exact dustCalls_amounts dust handled
  | succ fuel ih =>
    unfold digitCalls decomposeDigits
    by_cases hzero : amount = 0
    · rw [if_pos hzero, if_pos hzero]
      exact dustCalls_amounts dust handled
    · rw [if_neg hzero, if_neg hzero]
      simp only
      by_cases hsmall : dust + amount % 10 * order ≤ threshold
      · rw [if_pos hsmall, if_pos hsmall]
        exact ih ..
      · rw [if_neg hsmall, if_neg hsmall, List.map_append, List.map_append, dustCalls_amounts, ih]
        congr 2
        split
        · rfl
        · rfl

/-- The dust is handled at most once, and is within the threshold. -/
theorem digitCalls_dust (hdust : dust ≤ threshold) :
    ∃ d ≤ threshold, (digitCalls threshold fuel amount order dust handled).filterMap
      DigitCall.dust? = if handled = false ∧ d ≠ 0 then [d] else [] := by
  have hleft : ∀ (dust : Nat) (handled : Bool), (dustCalls dust handled).filterMap DigitCall.dust? =
      if handled = false ∧ dust ≠ 0 then [dust] else [] := by
    intro dust handled
    unfold dustCalls
    cases handled with
    | true => rfl
    | false =>
      by_cases hzero : dust = 0
      · rw [hzero]
        rfl
      · rw [if_pos ⟨Bool.false_ne_true, hzero⟩, if_pos ⟨rfl, hzero⟩]
        rfl
  induction fuel generalizing amount order dust handled with
  | zero => exact ⟨dust, hdust, hleft dust handled⟩
  | succ fuel ih =>
    unfold digitCalls
    by_cases hzero : amount = 0
    · rw [if_pos hzero]
      exact ⟨dust, hdust, hleft dust handled⟩
    · rw [if_neg hzero]
      simp only
      by_cases hsmall : dust + amount % 10 * order ≤ threshold
      · rw [if_pos hsmall]
        exact ih hsmall
      · rw [if_neg hsmall, List.filterMap_append, List.filterMap_append, hleft]
        have hchunk : (if amount % 10 * order ≠ 0 then
            [DigitCall.chunk (amount % 10 * order)] else []).filterMap DigitCall.dust? = [] := by
          split
          · rfl
          · rfl
        obtain ⟨d, hd, hrest⟩ := @ih (amount / 10) (order * 10) dust
          (handled || decide (dust ≠ 0)) hdust
        rw [hchunk, hrest, List.append_nil]
        cases handled with
        | true => exact ⟨d, hd, rfl⟩
        | false =>
          by_cases hnone : dust = 0
          · subst hnone
            exact ⟨d, hd, rfl⟩
          · refine ⟨dust, hdust, ?_⟩
            simp [hnone]

/-- No handler is called for nothing. -/
theorem digitCalls_pos : ∀ call ∈ digitCalls threshold fuel amount order dust handled,
    call.amount ≠ 0 := by
  have hleft : ∀ (dust : Nat) (handled : Bool), ∀ call ∈ dustCalls dust handled,
      call.amount ≠ 0 := by
    intro dust handled call hcall
    unfold dustCalls at hcall
    split at hcall
    · next h =>
      rw [List.mem_singleton.1 hcall]
      exact h.2
    · cases hcall
  induction fuel generalizing amount order dust handled with
  | zero => exact hleft dust handled
  | succ fuel ih =>
    unfold digitCalls
    by_cases hzero : amount = 0
    · rw [if_pos hzero]
      exact hleft dust handled
    · rw [if_neg hzero]
      simp only
      by_cases hsmall : dust + amount % 10 * order ≤ threshold
      · rw [if_pos hsmall]
        exact ih
      · rw [if_neg hsmall]
        intro call hcall
        rcases List.mem_append.1 hcall with hcall | hcall
        · rcases List.mem_append.1 hcall with hcall | hcall
          · exact hleft _ _ call hcall
          · split at hcall
            · next h =>
              rw [List.mem_singleton.1 hcall]
              exact h
            · cases hcall
        · exact ih call hcall

end

/-- The amounts handed over sum up to the amount. -/
theorem decomposeCalls_sum (amount dustThreshold : UInt64) :
    ((decomposeCalls amount dustThreshold).map DigitCall.amount).sum = amount.toNat := by
  have hlt := amount.toNat_lt
  have hpow : 2 ^ 64 ≤ 10 ^ 20 := by decide
  unfold decomposeCalls
  rw [digitCalls_amounts, sum_decomposeDigits (by omega) Nat.one_pos (by intro h; cases h)]
  rw [if_neg Bool.false_ne_true, Nat.zero_add, Nat.mul_one]

/-- Each of them fits 64 bits. -/
theorem decomposeCalls_lt {amount dustThreshold : UInt64} {call : DigitCall}
    (h : call ∈ decomposeCalls amount dustThreshold) : call.amount < 2 ^ 64 := by
  have hle : call.amount ≤ ((decomposeCalls amount dustThreshold).map DigitCall.amount).sum :=
    List.single_le_sum (by simp) _ (List.mem_map_of_mem h)
  rw [decomposeCalls_sum] at hle
  have := amount.toNat_lt
  omega

/-- A destination gets its amount. -/
theorem splitDestination_total (dustThreshold : UInt64) (de : TxDestinationEntry) :
    entriesTotal (splitDestination dustThreshold de) = de.amount.toNat := by
  unfold entriesTotal splitDestination
  rw [List.map_map, ← decomposeCalls_sum de.amount dustThreshold]
  congr 1
  apply List.map_congr_left
  intro call hcall
  exact UInt64.toNat_ofNat_of_lt' (decomposeCalls_lt hcall)

/-- The dust noted is that of the last call. -/
theorem foldl_noteDust (calls : List DigitCall) (start : UInt64) :
    calls.foldl DigitCall.noteDust start =
      ((calls.filterMap DigitCall.dust?).getLast?.map UInt64.ofNat).getD start := by
  induction calls generalizing start with
  | nil => rfl
  | cons call rest ih =>
    cases call with
    | chunk n => exact ih start
    | dust n =>
      rw [List.foldl_cons, ih]
      show _ = ((n :: rest.filterMap DigitCall.dust?).getLast?.map UInt64.ofNat).getD start
      rw [List.getLast?_cons]
      cases (rest.filterMap DigitCall.dust?).getLast? with
      | none => rfl
      | some m => rfl

/-- The entries made of calls carry their amounts. -/
theorem changeEntries_total (addr : AccountPublicAddress) {calls : List DigitCall}
    (hlt : ∀ call ∈ calls, call.amount < 2 ^ 64) :
    entriesTotal (calls.filterMap (DigitCall.changeEntry addr)) +
      (calls.filterMap DigitCall.dust?).sum = (calls.map DigitCall.amount).sum := by
  induction calls with
  | nil => rfl
  | cons call rest ih =>
    have hrest := ih fun c hc => hlt c (List.mem_cons_of_mem _ hc)
    have hcall := hlt call List.mem_cons_self
    unfold entriesTotal at hrest ⊢
    cases call with
    | chunk n =>
      have hn : (UInt64.ofNat n).toNat = n := UInt64.toNat_ofNat_of_lt' hcall
      simp only [List.filterMap_cons, List.map_cons, List.sum_cons, DigitCall.dust?,
        DigitCall.changeEntry, DigitCall.amount, hn]
      omega
    | dust n =>
      simp only [List.filterMap_cons, List.map_cons, List.sum_cons, DigitCall.dust?,
        DigitCall.changeEntry, DigitCall.amount]
      omega

/-- The chunks and the dust of the change come to the change. -/
theorem changeChunks_total (dustThreshold : UInt64) (changeDst : TxDestinationEntry) :
    entriesTotal (changeChunks dustThreshold changeDst) +
        (changeDust dustThreshold changeDst).toNat = changeDst.amount.toNat ∧
      changeDust dustThreshold changeDst ≤ dustThreshold := by
  have htotal := changeEntries_total changeDst.addr
    (fun call (h : call ∈ decomposeCalls changeDst.amount dustThreshold) => decomposeCalls_lt h)
  obtain ⟨d, hd, hdusts⟩ : ∃ d ≤ dustThreshold.toNat,
      (decomposeCalls changeDst.amount dustThreshold).filterMap DigitCall.dust? =
        if false = false ∧ d ≠ 0 then [d] else [] := digitCalls_dust (Nat.zero_le _)
  have hd64 : d < 2 ^ 64 := Nat.lt_of_le_of_lt hd dustThreshold.toNat_lt
  rw [decomposeCalls_sum, hdusts] at htotal
  unfold changeDust
  rw [foldl_noteDust, hdusts]
  by_cases hnone : d = 0
  · subst hnone
    exact ⟨htotal, UInt64.le_iff_toNat_le.2 (Nat.zero_le _)⟩
  · rw [if_pos ⟨rfl, hnone⟩] at htotal ⊢
    have hofNat : (UInt64.ofNat d).toNat = d := UInt64.toNat_ofNat_of_lt' hd64
    refine ⟨?_, UInt64.le_iff_toNat_le.2 ?_⟩
    · show _ + (UInt64.ofNat d).toNat = _
      rw [hofNat]
      exact htotal
    · show (UInt64.ofNat d).toNat ≤ _
      rw [hofNat]
      exact hd

/-! ## The two strategies -/

/-- The loop of the null strategy takes the amount apart into what it returns. -/
theorem nullSplitLoop_total {amount dustThreshold : UInt64} {fuel : Nat}
    {order dust change : UInt64} {r : UInt64 × UInt64}
    (h : nullSplitLoop amount dustThreshold fuel order dust change = some r)
    (hsum : change.toNat + dust.toNat = amount.toNat) (hle : dust ≤ dustThreshold) :
    r.2.toNat + r.1.toNat = amount.toNat ∧ r.1 ≤ dustThreshold := by
  induction fuel generalizing order dust change with
  | zero => cases h
  | succ fuel ih =>
    unfold nullSplitLoop at h
    by_cases hgo : order ≤ 10 * dustThreshold
    · rw [if_pos hgo] at h
      by_cases hzero : order = 0
      · rw [if_pos hzero] at h
        cases h
      · rw [if_neg hzero] at h
        by_cases hsmall : amount % order ≤ dustThreshold
        · rw [if_pos hsmall] at h
          refine ih h ?_ hsmall
          have hlt := amount.toNat_lt
          have hdiv := Nat.div_mul_le_self amount.toNat order.toNat
          have hmod := Nat.mod_add_div' amount.toNat order.toNat
          rw [UInt64.toNat_mul, UInt64.toNat_div, UInt64.toNat_mod,
            Nat.mod_eq_of_lt (Nat.lt_of_le_of_lt hdiv hlt)]
          omega
        · rw [if_neg hsmall] at h
          cases h
          exact ⟨hsum, hle⟩
    · rw [if_neg hgo] at h
      cases h
      exact ⟨hsum, hle⟩

/-- Under a threshold with room for two more digits the loop ends. -/
theorem nullSplitLoop_ends {amount dustThreshold : UInt64} {fuel : Nat}
    {order dust change : UInt64} (hroom : 100 * dustThreshold.toNat < 2 ^ 64)
    (hpos : 0 < order.toNat) (horder : order.toNat ≤ 100 * dustThreshold.toNat)
    (hfuel : 10 * dustThreshold.toNat < order.toNat * 10 ^ fuel) :
    (nullSplitLoop amount dustThreshold (fuel + 1) order dust change).isSome = true := by
  have hten : (10 * dustThreshold).toNat = 10 * dustThreshold.toNat := by
    rw [UInt64.toNat_mul]
    exact Nat.mod_eq_of_lt (by show 10 * dustThreshold.toNat < 2 ^ 64; omega)
  have hnonzero : order ≠ 0 := by
    rintro rfl
    exact Nat.lt_irrefl 0 hpos
  induction fuel generalizing order dust change with
  | zero =>
    have hstop : ¬ order ≤ 10 * dustThreshold := by
      rw [UInt64.le_iff_toNat_le, hten]
      omega
    unfold nullSplitLoop
    rw [if_neg hstop]
    rfl
  | succ fuel ih =>
    unfold nullSplitLoop
    by_cases hgo : order ≤ 10 * dustThreshold
    · rw [if_pos hgo, if_neg hnonzero]
      by_cases hsmall : amount % order ≤ dustThreshold
      · rw [if_pos hsmall]
        have hle := UInt64.le_iff_toNat_le.1 hgo
        rw [hten] at hle
        have hnext : (order * 10).toNat = order.toNat * 10 := by
          rw [UInt64.toNat_mul]
          exact Nat.mod_eq_of_lt (by show order.toNat * 10 < 2 ^ 64; omega)
        apply ih
        · omega
        · omega
        · rw [hnext, Nat.mul_assoc, ← Nat.pow_succ']
          exact hfuel
        · intro hzero
          rw [hzero] at hnext
          have : (0 : UInt64).toNat = 0 := rfl
          omega
      · rw [if_neg hsmall]
        rfl
    · rw [if_neg hgo]
      rfl

/-- The entries are those of the destinations, each with its amount, and of the
change without the dust. -/
structure Splits (dsts : List TxDestinationEntry) (changeDst : TxDestinationEntry)
    (dustThreshold : UInt64) (splitted : List TxDestinationEntry) (dust : UInt64) : Prop where
  entries : ∃ parts change, splitted = parts.flatten ++ change ∧
    List.Forall₂ (fun de part => (∀ p ∈ part, p.addr = de.addr) ∧
      entriesTotal part = de.amount.toNat) dsts parts ∧
    (∀ p ∈ change, p.addr = changeDst.addr) ∧
    entriesTotal change + dust.toNat = changeDst.amount.toNat
  dust_le : dust ≤ dustThreshold
  positive : (∀ de ∈ dsts, de.amount ≠ 0) → ∀ p ∈ splitted, p.amount ≠ 0

/-- No call hands over nothing. -/
theorem decomposeCalls_ofNat_ne_zero {amount dustThreshold : UInt64} {call : DigitCall}
    (h : call ∈ decomposeCalls amount dustThreshold) : UInt64.ofNat call.amount ≠ 0 := by
  intro hzero
  have hval : (UInt64.ofNat call.amount).toNat = call.amount :=
    UInt64.toNat_ofNat_of_lt' (decomposeCalls_lt h)
  rw [hzero] at hval
  exact digitCalls_pos call h hval.symm

/-- The digit strategy splits each destination, and the change, into digits. -/
theorem digitSplitStrategy_splits {dsts : List TxDestinationEntry} {changeDst : TxDestinationEntry}
    {dustThreshold : UInt64} {r : List TxDestinationEntry × UInt64}
    (h : digitSplitStrategy dsts changeDst dustThreshold = some r) :
    Splits dsts changeDst dustThreshold r.1 r.2 := by
  cases h
  obtain ⟨htotal, hdust⟩ := changeChunks_total dustThreshold changeDst
  refine ⟨⟨dsts.map (splitDestination dustThreshold), changeChunks dustThreshold changeDst,
    by rw [List.flatMap_def], ?_, ?_, htotal⟩, hdust, ?_⟩
  · rw [List.forall₂_map_right_iff, List.forall₂_same]
    intro de _
    refine ⟨?_, splitDestination_total dustThreshold de⟩
    intro p hp
    obtain ⟨call, -, rfl⟩ := List.mem_map.1 hp
    rfl
  · intro p hp
    obtain ⟨call, -, hcall⟩ := List.mem_filterMap.1 hp
    cases call with
    | dust n => cases hcall
    | chunk n =>
      cases hcall
      rfl
  · intro _ p hp
    rcases List.mem_append.1 hp with hp | hp
    · obtain ⟨de, -, hp⟩ := List.mem_flatMap.1 hp
      obtain ⟨call, hmem, rfl⟩ := List.mem_map.1 hp
      exact decomposeCalls_ofNat_ne_zero hmem
    · obtain ⟨call, hmem, hcall⟩ := List.mem_filterMap.1 hp
      cases call with
      | dust n => cases hcall
      | chunk n =>
        cases hcall
        exact decomposeCalls_ofNat_ne_zero hmem

/-- The null strategy leaves the destinations whole and splits the change from its dust. -/
theorem nullSplitStrategy_splits {dsts : List TxDestinationEntry} {changeDst : TxDestinationEntry}
    {dustThreshold : UInt64} {r : List TxDestinationEntry × UInt64}
    (h : nullSplitStrategy dsts changeDst dustThreshold = some r) :
    Splits dsts changeDst dustThreshold r.1 r.2 := by
  obtain ⟨⟨dust, change⟩, hloop, rfl⟩ := Option.map_eq_some_iff.1 h
  obtain ⟨hsum, hdust⟩ : change.toNat + dust.toNat = changeDst.amount.toNat ∧
      dust ≤ dustThreshold := by
    have hzero : (0 : UInt64) ≤ dustThreshold := UInt64.le_iff_toNat_le.2 (Nat.zero_le _)
    by_cases hpos : 0 < dustThreshold
    · rw [if_pos hpos] at hloop
      exact nullSplitLoop_total hloop (Nat.add_zero _) hzero
    · rw [if_neg hpos] at hloop
      cases hloop
      exact ⟨Nat.add_zero _, hzero⟩
  have hself : List.Forall₂ (fun (de : TxDestinationEntry) part => (∀ p ∈ part, p.addr = de.addr) ∧
      entriesTotal part = de.amount.toNat) dsts (dsts.map fun de => [de]) := by
    rw [List.forall₂_map_right_iff, List.forall₂_same]
    intro de _
    refine ⟨fun p hp => by rw [List.mem_singleton.1 hp], ?_⟩
    unfold entriesTotal
    rw [List.map_singleton, List.sum_singleton]
  have hflat : (dsts.map fun de => [de]).flatten = dsts := by
    rw [← List.flatMap_def]
    exact List.flatMap_singleton' dsts
  by_cases hnone : change = 0
  · simp only [hnone, ne_eq, not_true_eq_false, if_false]
    subst hnone
    refine ⟨⟨_, [], by rw [hflat, List.append_nil], hself, nofun, hsum⟩, hdust, ?_⟩
    exact fun hall => hall
  · simp only [if_pos hnone]
    refine ⟨⟨_, [⟨change, changeDst.addr⟩], by rw [hflat], hself, ?_, ?_⟩, hdust, ?_⟩
    · intro p hp
      rw [List.mem_singleton.1 hp]
    · unfold entriesTotal
      rw [List.map_singleton, List.sum_singleton]
      exact hsum
    · intro hall p hp
      rcases List.mem_append.1 hp with hp | hp
      · exact hall p hp
      · rw [List.mem_singleton.1 hp]
        exact hnone

end DarknetSpace
