import DarknetSpace.Wallet.Splits

/-!
# What is free, and what is taken

`select_transfers` sorts the outputs that can be spent by amount
(`find_free_amounts`) and takes from them until there is enough
(`select_indices_for_transfer`). The map from amounts to indexes is read here as the
list of its pairs, `FreeAmounts.pairs`, which an insertion adds to and a pop takes
from, up to order.

`spendable` is that list put together without the map, one pair for each output that
is unlocked, not spent and of use in a ring. `findFreeAmounts_pairs` says that the
map holds just those, and `selectIndicesLoop_chosen` that what is selected is part of
them, each at most once, and adds up to what was found. `selectIndicesLoop_enough`
is the other direction: if all of it together is enough, enough is found.

The 64-bit sums are exact here as long as the wallet's own total fits, and so is the
sum of what is needed (`addNeeded_ok`), where the source checks for overflow.
-/

namespace DarknetSpace

open StateExn

/-! ## Selection -/

/-- The amounts of a map with their indexes. -/
def FreeAmounts.pairs (free : FreeAmounts) : List (UInt64 × Nat) :=
  free.flatMap fun e => e.2.map fun i => (e.1, i)

/-- No amount stays in the map without an index. -/
def FreeAmounts.Filled (free : FreeAmounts) : Prop := ∀ e ∈ free, e.2 ≠ []

/-- The money of a list of free outputs. -/
def pairsTotal (pairs : List (UInt64 × Nat)) : Nat := (pairs.map fun p => p.1.toNat).sum

/-- An output added is one more pair. -/
theorem pairs_add (amount : UInt64) (i : Nat) (free : FreeAmounts) :
    (free.add amount i).pairs.Perm ((amount, i) :: free.pairs) := by
  induction free with
  | nil => exact List.Perm.refl _
  | cons e rest ih =>
    obtain ⟨a, is⟩ := e
    unfold FreeAmounts.add
    by_cases hlt : amount < a
    · rw [if_pos hlt]
      exact List.Perm.refl _
    · rw [if_neg hlt]
      by_cases heq : amount = a
      · subst heq
        rw [if_pos rfl]
        unfold FreeAmounts.pairs
        rw [List.flatMap_cons, List.flatMap_cons, List.map_append, List.append_assoc]
        exact List.perm_middle
      · rw [if_neg heq]
        unfold FreeAmounts.pairs at ih ⊢
        rw [List.flatMap_cons, List.flatMap_cons]
        exact (ih.append_left _).trans List.perm_middle

/-- An amount with an output added is not empty. -/
theorem FreeAmounts.Filled.add {free : FreeAmounts} (h : free.Filled) (amount : UInt64) (i : Nat) :
    (free.add amount i).Filled := by
  induction free with
  | nil =>
    intro e he
    rw [List.mem_singleton.1 he]
    exact List.cons_ne_nil _ _
  | cons e rest ih =>
    obtain ⟨a, is⟩ := e
    have hrest : FreeAmounts.Filled rest := fun e he => h e (List.mem_cons_of_mem _ he)
    unfold FreeAmounts.add
    by_cases hlt : amount < a
    · rw [if_pos hlt]
      intro e he
      rcases List.mem_cons.1 he with rfl | he
      · exact List.cons_ne_nil _ _
      · exact h e he
    · rw [if_neg hlt]
      by_cases heq : amount = a
      · rw [if_pos heq]
        intro e he
        rcases List.mem_cons.1 he with rfl | he
        · exact List.append_ne_nil_of_right_ne_nil _ (List.cons_ne_nil _ _)
        · exact hrest e he
      · rw [if_neg heq]
        intro e he
        rcases List.mem_cons.1 he with rfl | he
        · exact h _ List.mem_cons_self
        · exact ih hrest e he

/-- What a transfer can select, from index `i` on. -/
def spendableFrom (now fakeOutputsCount : Nat) (w : Wallet2) :
    (i : Nat) → List TransferDetails → List (UInt64 × Nat)
  | _, [] => []
  | i, td :: rest =>
    (if td.mSpent = false ∧ w.isTransferUnlocked now td = true then
      match td.mTx.vout[td.mInternalOutputIndex]? with
      | some ⟨amount, .toKey _ mixAttr⟩ =>
        if isMixattrApplicableForFakeOutsCounter mixAttr fakeOutputsCount then [(amount, i)] else []
      | _ => []
    else []) ++ spendableFrom now fakeOutputsCount w (i + 1) rest

/-- The money a transfer can select from. -/
def spendable (now fakeOutputsCount : Nat) (w : Wallet2) : List (UInt64 × Nat) :=
  spendableFrom now fakeOutputsCount w 0 w.mTransfers

section

variable {now fakeOutputsCount : Nat} {w : Wallet2}

/-- The outputs found are the spendable ones. -/
theorem findFreeAmounts_pairs {tds : List TransferDetails} {i : Nat} {free free' : FreeAmounts}
    (h : findFreeAmounts now fakeOutputsCount w i tds free = .ok free') (hfilled : free.Filled) :
    free'.pairs.Perm (spendableFrom now fakeOutputsCount w i tds ++ free.pairs) ∧ free'.Filled := by
  induction tds generalizing i free with
  | nil =>
    cases h
    exact ⟨List.Perm.refl _, hfilled⟩
  | cons td rest ih =>
    unfold findFreeAmounts at h
    unfold spendableFrom
    by_cases hfree : td.mSpent = false ∧ w.isTransferUnlocked now td = true
    · rw [if_pos hfree] at h ⊢
      cases hout : td.mTx.vout[td.mInternalOutputIndex]? with
      | none =>
        rw [hout] at h
        cases h
      | some out =>
        obtain ⟨amount, target⟩ := out
        rw [hout] at h
        cases target with
        | toScript _ _ | toScripthash _ => cases h
        | toKey key mixAttr =>
          simp only at h ⊢
          by_cases hmix : isMixattrApplicableForFakeOutsCounter mixAttr fakeOutputsCount = true
          · rw [if_pos hmix] at h ⊢
            obtain ⟨hperm, hfilled'⟩ := ih h (hfilled.add amount i)
            refine ⟨?_, hfilled'⟩
            refine (hperm.trans ((pairs_add amount i free).append_left _)).trans ?_
            exact List.perm_middle
          · rw [if_neg hmix] at h ⊢
            exact ih h hfilled
    · rw [if_neg hfree] at h ⊢
      exact ih h hfilled

/-- A spendable output is one of the transfers. -/
theorem mem_spendableFrom {tds : List TransferDetails} {i : Nat} {p : UInt64 × Nat}
    (h : p ∈ spendableFrom now fakeOutputsCount w i tds) :
    i ≤ p.2 ∧ ∃ td, tds[p.2 - i]? = some td ∧ td.mSpent = false ∧
      w.isTransferUnlocked now td = true ∧ td.amount = p.1 := by
  induction tds generalizing i with
  | nil => cases h
  | cons td rest ih =>
    unfold spendableFrom at h
    rcases List.mem_append.1 h with h | h
    · by_cases hfree : td.mSpent = false ∧ w.isTransferUnlocked now td = true
      · rw [if_pos hfree] at h
        cases hout : td.mTx.vout[td.mInternalOutputIndex]? with
        | none =>
          rw [hout] at h
          cases h
        | some out =>
          obtain ⟨amount, target⟩ := out
          rw [hout] at h
          cases target with
          | toScript _ _ | toScripthash _ => cases h
          | toKey key mixAttr =>
            simp only at h
            split at h
            · rw [List.mem_singleton.1 h]
              refine ⟨Nat.le_refl _, td, ?_, hfree.1, hfree.2, ?_⟩
              · rw [Nat.sub_self]
                rfl
              · unfold TransferDetails.amount
                rw [hout]
                rfl
            · cases h
      · rw [if_neg hfree] at h
        cases h
    · obtain ⟨hle, td', htd', hspent, hunlocked, hamount⟩ := ih h
      refine ⟨by omega, td', ?_, hspent, hunlocked, hamount⟩
      rw [show p.2 - i = p.2 - (i + 1) + 1 by omega, List.getElem?_cons_succ]
      exact htd'

/-- No output is spendable twice. -/
theorem spendableFrom_nodup (tds : List TransferDetails) (i : Nat) :
    ((spendableFrom now fakeOutputsCount w i tds).map Prod.snd).Nodup := by
  induction tds generalizing i with
  | nil => exact List.nodup_nil
  | cons td rest ih =>
    unfold spendableFrom
    rw [List.map_append]
    have hone : ∀ head : List (UInt64 × Nat), (head = [] ∨ ∃ amount, head = [(amount, i)]) →
        (head.map Prod.snd ++
          (spendableFrom now fakeOutputsCount w (i + 1) rest).map Prod.snd).Nodup := by
      rintro head (rfl | ⟨amount, rfl⟩)
      · exact ih (i + 1)
      · refine List.nodup_cons.2 ⟨?_, ih (i + 1)⟩
        intro hmem
        obtain ⟨p, hp, hi⟩ := List.mem_map.1 hmem
        have := (mem_spendableFrom hp).1
        omega
    apply hone
    split
    · split
      · split
        · exact .inr ⟨_, rfl⟩
        · exact .inl rfl
      · exact .inl rfl
    · exact .inl rfl

end

/-- The index popped off the end. -/
theorem pairs_popLast {free : FreeAmounts} (hfilled : free.Filled) {amount : UInt64} {i : Nat}
    {is : List Nat} (hlast : free.getLast? = some (amount, i :: is)) :
    free.pairs.Perm ((amount, (i :: is).getLast (List.cons_ne_nil i is)) :: free.popLast.pairs) ∧
      free.popLast.Filled := by
  obtain ⟨front, hfree⟩ : ∃ front, free = front ++ [(amount, i :: is)] :=
    ⟨_, (List.dropLast_append_getLast? _ hlast).symm⟩
  have hdrop : free.dropLast = front := by rw [hfree, List.dropLast_concat]
  have hsplit := List.dropLast_append_getLast (List.cons_ne_nil i is)
  have hfront : FreeAmounts.Filled front := by
    intro e he
    exact hfilled e (by rw [hfree]; exact List.mem_append_left _ he)
  unfold FreeAmounts.popLast
  rw [hlast]
  simp only
  rw [hdrop]
  by_cases hone : (i :: is).dropLast = []
  · rw [if_pos hone]
    refine ⟨?_, hfront⟩
    rw [hone, List.nil_append] at hsplit
    rw [hfree]
    unfold FreeAmounts.pairs
    rw [List.flatMap_append, List.flatMap_singleton]
    conv_lhs => rhs; rw [← hsplit]
    exact List.perm_append_singleton _ _
  · rw [if_neg hone]
    refine ⟨?_, ?_⟩
    · rw [hfree]
      unfold FreeAmounts.pairs
      rw [List.flatMap_append, List.flatMap_append, List.flatMap_singleton, List.flatMap_singleton]
      conv_lhs => rhs; rw [← hsplit]
      rw [List.map_append, ← List.append_assoc]
      exact List.perm_append_singleton _ _
    · intro e he
      rcases List.mem_append.1 he with he | he
      · exact hfront e he
      · rw [List.mem_singleton.1 he]
        exact hone

theorem mem_pairs_of_mem {free : FreeAmounts} {amount : UInt64} {is : List Nat} {i : Nat}
    (he : (amount, is) ∈ free) (hi : i ∈ is) : (amount, i) ∈ free.pairs :=
  List.mem_flatMap.2 ⟨_, he, List.mem_map_of_mem hi⟩

/-- What the loop selects is in the map, each index once, and comes to what it
says up to wrapping, and exactly unless it says that it is not enough. -/
theorem selectIndicesLoop_chosen (neededMoney : UInt64) (fuel : Nat) {free : FreeAmounts}
    (foundMoney : UInt64) (selected : List Nat) (hfilled : free.Filled) :
    ∃ chosen rest, (selectIndicesLoop neededMoney fuel free foundMoney selected).2 =
        selected ++ chosen.map Prod.snd ∧
      (chosen ++ rest).Perm free.pairs ∧
      (selectIndicesLoop neededMoney fuel free foundMoney selected).1.toNat =
        (foundMoney.toNat + pairsTotal chosen) % 2 ^ 64 ∧
      (((selectIndicesLoop neededMoney fuel free foundMoney selected).1.toNat =
          foundMoney.toNat + pairsTotal chosen) ∨
        (selectIndicesLoop neededMoney fuel free foundMoney selected).1 < neededMoney) := by
  induction fuel generalizing free foundMoney selected with
  | zero =>
    exact ⟨[], free.pairs, (List.append_nil _).symm, List.Perm.refl _,
      (Nat.mod_eq_of_lt foundMoney.toNat_lt).symm, .inl rfl⟩
  | succ fuel ih =>
    unfold selectIndicesLoop
    by_cases hgo : foundMoney < neededMoney ∧ free ≠ []
    · rw [if_pos hgo]
      have hgap : (neededMoney - foundMoney).toNat = neededMoney.toNat - foundMoney.toNat :=
        UInt64.toNat_sub_of_le _ _ (UInt64.le_of_lt hgo.1)
      have hlt := UInt64.lt_iff_toNat_lt.1 hgo.1
      cases hfind : free.find? fun e => decide (neededMoney - foundMoney ≤ e.1) with
      | some e =>
        obtain ⟨amount, is⟩ := e
        cases is with
        | nil => exact absurd rfl (hfilled _ (List.mem_of_find?_eq_some hfind))
        | cons i is =>
          simp only
          have hmem := mem_pairs_of_mem (List.mem_of_find?_eq_some hfind)
            (List.getLast_mem (List.cons_ne_nil i is))
          refine ⟨[(amount, (i :: is).getLast (List.cons_ne_nil i is))], free.pairs.erase _, rfl,
            (List.perm_cons_erase hmem).symm, UInt64.toNat_add _ _, ?_⟩
          show (foundMoney + amount).toNat = foundMoney.toNat + (amount.toNat + 0) ∨ _
          have hamount := amount.toNat_lt
          -- past 64 bits the sum is less than what was found
          by_cases hwrap : foundMoney.toNat + amount.toNat < 2 ^ 64
          · rw [UInt64.toNat_add, Nat.mod_eq_of_lt hwrap]
            exact .inl rfl
          · refine .inr (UInt64.lt_iff_toNat_lt.2 ?_)
            rw [UInt64.toNat_add]
            have := foundMoney.toNat_lt
            omega
      | none =>
        simp only
        cases hlast : free.getLast? with
        | none => exact absurd (List.getLast?_eq_none_iff.1 hlast) hgo.2
        | some e =>
          obtain ⟨amount, is⟩ := e
          cases is with
          | nil => exact absurd rfl (hfilled _ (List.mem_of_getLast? hlast))
          | cons i is =>
            simp only
            obtain ⟨hpop, hfilled'⟩ := pairs_popLast hfilled hlast
            obtain ⟨chosen, rest, hsel, hperm, hwrap, hmoney⟩ := ih (foundMoney + amount)
              (selected ++ [(i :: is).getLast (List.cons_ne_nil i is)]) hfilled'
            refine ⟨(amount, (i :: is).getLast (List.cons_ne_nil i is)) :: chosen, rest, ?_, ?_, ?_, ?_⟩
            · rw [hsel, List.append_assoc]
              rfl
            · exact (hperm.cons _).trans hpop.symm
            · rw [hwrap, UInt64.toNat_add, Nat.mod_add_mod, Nat.add_assoc]
              rfl
            · refine hmoney.imp_left fun hexact => ?_
              -- every amount of the map is too small to reach what is needed
              have hsmall := List.find?_eq_none.1 hfind _ (List.mem_of_getLast? hlast)
              rw [decide_eq_true_eq, UInt64.le_iff_toNat_le, hgap] at hsmall
              simp only at hsmall
              have hneeded := neededMoney.toNat_lt
              rw [hexact, UInt64.toNat_add, Nat.mod_eq_of_lt (by omega), Nat.add_assoc]
              rfl
    · rw [if_neg hgo]
      exact ⟨[], free.pairs, (List.append_nil _).symm, List.Perm.refl _,
        (Nat.mod_eq_of_lt foundMoney.toNat_lt).symm, .inl rfl⟩

theorem pairsTotal_perm {a b : List (UInt64 × Nat)} (h : a.Perm b) : pairsTotal a = pairsTotal b :=
  (h.map _).sum_eq

/-- With enough in the map the loop finds enough. -/
theorem selectIndicesLoop_enough {neededMoney : UInt64} {fuel : Nat} {free : FreeAmounts}
    {foundMoney : UInt64} {selected : List Nat} (hfilled : free.Filled)
    (hfuel : free.pairs.length < fuel)
    (henough : neededMoney.toNat ≤ foundMoney.toNat + pairsTotal free.pairs)
    (hfits : foundMoney.toNat + pairsTotal free.pairs < 2 ^ 64) :
    neededMoney ≤ (selectIndicesLoop neededMoney fuel free foundMoney selected).1 := by
  induction fuel generalizing free foundMoney selected with
  | zero => omega
  | succ fuel ih =>
    unfold selectIndicesLoop
    by_cases hgo : foundMoney < neededMoney ∧ free ≠ []
    · rw [if_pos hgo]
      have hgap : (neededMoney - foundMoney).toNat = neededMoney.toNat - foundMoney.toNat :=
        UInt64.toNat_sub_of_le _ _ (UInt64.le_of_lt hgo.1)
      have hlt := UInt64.lt_iff_toNat_lt.1 hgo.1
      -- no output alone takes the sum past the word: all of them together do not
      have htake : ∀ p ∈ free.pairs, (foundMoney + p.1).toNat = foundMoney.toNat + p.1.toNat := by
        intro p hp
        have hle : p.1.toNat ≤ pairsTotal free.pairs :=
          List.single_le_sum (by simp) _ (List.mem_map_of_mem (f := fun p => p.1.toNat) hp)
        rw [UInt64.toNat_add]
        exact Nat.mod_eq_of_lt (by omega)
      cases hfind : free.find? fun e => decide (neededMoney - foundMoney ≤ e.1) with
      | some e =>
        obtain ⟨amount, is⟩ := e
        cases is with
        | nil => exact absurd rfl (hfilled _ (List.mem_of_find?_eq_some hfind))
        | cons i is =>
          simp only
          have hmem := mem_pairs_of_mem (List.mem_of_find?_eq_some hfind) List.mem_cons_self
          -- one output covers what is missing, and the loop is done with it
          have hbig := List.find?_some hfind
          rw [decide_eq_true_eq, UInt64.le_iff_toNat_le, hgap] at hbig
          rw [UInt64.le_iff_toNat_le, htake _ hmem]
          simp only at hbig ⊢
          omega
      | none =>
        simp only
        cases hlast : free.getLast? with
        | none => exact absurd (List.getLast?_eq_none_iff.1 hlast) hgo.2
        | some e =>
          obtain ⟨amount, is⟩ := e
          cases is with
          | nil => exact absurd rfl (hfilled _ (List.mem_of_getLast? hlast))
          | cons i is =>
            simp only
            -- none does, so the largest is taken and the rest has to do
            obtain ⟨hpop, hfilled'⟩ := pairs_popLast hfilled hlast
            have htotal := pairsTotal_perm hpop
            have hcount := hpop.length_eq
            have hmoney := htake _ (hpop.symm.mem_iff.1 List.mem_cons_self)
            unfold pairsTotal at htotal
            rw [List.map_cons, List.sum_cons] at htotal
            rw [List.length_cons] at hcount
            unfold pairsTotal at henough hfits
            simp only at htotal hmoney
            apply ih hfilled'
            · omega
            · unfold pairsTotal
              omega
            · unfold pairsTotal
              omega
    · rw [if_neg hgo]
      by_cases hempty : free = []
      · subst hempty
        exact UInt64.le_iff_toNat_le.2 henough
      · exact UInt64.not_lt.1 fun hlt => hgo ⟨hlt, hempty⟩

/-! ## What is needed, what is found -/

/-- The needed money did not wrap. -/
theorem addNeeded_ok {dsts : List TxDestinationEntry} {start needed : UInt64}
    (h : addNeeded start dsts = .ok needed) :
    needed.toNat = start.toNat + entriesTotal dsts ∧ ∀ de ∈ dsts, de.amount ≠ 0 := by
  induction dsts generalizing start with
  | nil =>
    cases h
    exact ⟨rfl, nofun⟩
  | cons dt rest ih =>
    unfold addNeeded at h
    by_cases hzero : dt.amount = 0
    · rw [if_pos hzero] at h
      cases h
    · rw [if_neg hzero] at h
      by_cases hover : start + dt.amount < dt.amount
      · rw [if_pos hover] at h
        cases h
      · rw [if_neg hover] at h
        obtain ⟨hsum, hpos⟩ := ih h
        -- a sum that is not below its last term has not wrapped
        have hexact : (start + dt.amount).toNat = start.toNat + dt.amount.toNat := by
          rw [UInt64.lt_iff_toNat_lt, UInt64.toNat_add] at hover
          rw [UInt64.toNat_add]
          have := start.toNat_lt
          have := dt.amount.toNat_lt
          omega
        refine ⟨?_, ?_⟩
        · rw [hsum, hexact, Nat.add_assoc]
          rfl
        · intro de hde
          rcases List.mem_cons.1 hde with rfl | hde
          · exact hzero
          · exact hpos de hde

/-- Money that fits does not wrap. -/
theorem addNeeded_of_fits {dsts : List TxDestinationEntry} {start : UInt64}
    (hpos : ∀ de ∈ dsts, de.amount ≠ 0) (hfits : start.toNat + entriesTotal dsts < 2 ^ 64) :
    ∃ needed, addNeeded start dsts = .ok needed := by
  induction dsts generalizing start with
  | nil => exact ⟨start, rfl⟩
  | cons dt rest ih =>
    have htotal : entriesTotal (dt :: rest) = dt.amount.toNat + entriesTotal rest := rfl
    have hexact : (start + dt.amount).toNat = start.toNat + dt.amount.toNat := by
      rw [UInt64.toNat_add]
      exact Nat.mod_eq_of_lt (by omega)
    unfold addNeeded
    rw [if_neg (hpos dt List.mem_cons_self), if_neg]
    · exact ih (fun de hde => hpos de (List.mem_cons_of_mem _ hde)) (by omega)
    · rw [UInt64.lt_iff_toNat_lt, hexact]
      omega

section

variable {now fakeOutputsCount : Nat} {needed : UInt64} {w : Wallet2}

/-- What is selected is unspent, unlocked and there once, and comes to what was
found. -/
theorem selectTransfers_chosen {found : UInt64 × List Nat}
    (h : selectTransfers now needed fakeOutputsCount w = .ok found) (hfound : needed ≤ found.1) :
    ∃ chosen : List (UInt64 × Nat), found.2 = chosen.map Prod.snd ∧ found.2.Nodup ∧
      found.1.toNat = pairsTotal chosen ∧
      ∀ p ∈ chosen, ∃ td, w.mTransfers[p.2]? = some td ∧ td.mSpent = false ∧
        w.isTransferUnlocked now td = true ∧ td.amount = p.1 := by
  unfold selectTransfers at h
  obtain ⟨free, hfree, hsel⟩ := bind_eq_ok_except.1 h
  cases hsel
  obtain ⟨hpairs, hfilled⟩ := findFreeAmounts_pairs hfree (fun e he => nomatch he)
  obtain ⟨chosen, rest, hsel, hperm, -, hmoney⟩ := selectIndicesLoop_chosen needed
    ((free.map fun e => e.2.length).sum + 1) 0 [] hfilled
  have hall : (chosen ++ rest).Perm (spendable now fakeOutputsCount w) := by
    have hspendable := hperm.trans hpairs
    rwa [show FreeAmounts.pairs [] = [] from rfl, List.append_nil] at hspendable
  have hnodup : ((chosen ++ rest).map Prod.snd).Nodup :=
    (hall.map Prod.snd).nodup_iff.2 (spendableFrom_nodup w.mTransfers 0)
  rw [List.map_append] at hnodup
  refine ⟨chosen, hsel, ?_, ?_, ?_⟩
  · unfold selectIndicesForTransfer
    rw [hsel]
    exact (List.nodup_append.1 hnodup).1
  · rcases hmoney with hexact | hless
    · unfold selectIndicesForTransfer
      rw [hexact]
      exact Nat.zero_add _
    · exact absurd hless (UInt64.not_lt.2 hfound)
  · intro p hp
    obtain ⟨-, td, htd, hfacts⟩ := mem_spendableFrom (hall.subset (List.mem_append_left _ hp))
    exact ⟨td, htd, hfacts⟩

/-- Outputs to keys are all looked at. -/
theorem findFreeAmounts_of_keys (fakeOutputsCount : Nat) {tds : List TransferDetails} (i : Nat)
    (free : FreeAmounts)
    (h : ∀ td ∈ tds, td.mSpent = false → w.isTransferUnlocked now td = true →
      ∃ amount key mixAttr, td.mTx.vout[td.mInternalOutputIndex]? =
        some ⟨amount, .toKey key mixAttr⟩) :
    ∃ free', findFreeAmounts now fakeOutputsCount w i tds free = .ok free' := by
  induction tds generalizing i free with
  | nil => exact ⟨free, rfl⟩
  | cons td rest ih =>
    have hrest := fun j free' => ih j free' fun td' htd' => h td' (List.mem_cons_of_mem _ htd')
    unfold findFreeAmounts
    by_cases hfree : td.mSpent = false ∧ w.isTransferUnlocked now td = true
    · obtain ⟨amount, key, mixAttr, hout⟩ := h td List.mem_cons_self hfree.1 hfree.2
      rw [if_pos hfree, hout]
      exact hrest _ _
    · rw [if_neg hfree]
      exact hrest _ _

/-- With enough money in spendable outputs the selection finds enough. -/
theorem selectTransfers_enough
    (hkeys : ∀ td ∈ w.mTransfers, td.mSpent = false → w.isTransferUnlocked now td = true →
      ∃ amount key mixAttr, td.mTx.vout[td.mInternalOutputIndex]? =
        some ⟨amount, .toKey key mixAttr⟩)
    (henough : needed.toNat ≤ pairsTotal (spendable now fakeOutputsCount w))
    (hfits : pairsTotal (spendable now fakeOutputsCount w) < 2 ^ 64) :
    ∃ found, selectTransfers now needed fakeOutputsCount w = .ok found ∧ needed ≤ found.1 := by
  obtain ⟨free, hfree⟩ := findFreeAmounts_of_keys fakeOutputsCount 0 [] hkeys
  obtain ⟨hpairs, hfilled⟩ := findFreeAmounts_pairs hfree (fun e he => nomatch he)
  rw [show FreeAmounts.pairs [] = [] from rfl, List.append_nil] at hpairs
  have htotal := pairsTotal_perm hpairs
  have hcount : free.pairs.length = (free.map fun e => e.2.length).sum := by
    unfold FreeAmounts.pairs
    rw [List.length_flatMap]
    simp only [List.length_map]
  refine ⟨selectIndicesForTransfer free needed, ?_, ?_⟩
  · unfold selectTransfers
    rw [hfree]
    rfl
  · unfold spendable at henough hfits
    apply selectIndicesLoop_enough hfilled
    · omega
    · rw [htotal]
      exact Nat.le_trans henough (Nat.le_add_left _ _)
    · rw [htotal]
      exact Nat.lt_of_le_of_lt (Nat.le_of_eq (Nat.zero_add _)) hfits

end

end DarknetSpace
