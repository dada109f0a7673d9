import DarknetSpace.Wallet.Payment
import DarknetSpace.Chain.Inputs

/-!
# Rings (`wallet2::transfer`)

The daemon is asked for one output more than a ring needs besides the real one,
so that the real one can be skipped, but its answer passes with one less. The
ring is in order whatever the answer, and the input built from it leads back to
it; it is as large as requested unless the answer has no spare and holds the real
output.

`rings_as_requested` is about every transfer that was selected, and every answer of the
daemon with as many entries as it accepts. The outputs of a ring ascend and the real one
is among them; where an answer is one short and holds the real output itself, the ring
is one short too.
-/

namespace DarknetSpace

open StateExn

/-! ## In order -/

theorem rising_insert {g : UInt64} (key : PublicKey) {ring : List (UInt64 × PublicKey)}
    (hrising : ring.Pairwise fun a b => a.1 < b.1) (hnew : ∀ a ∈ ring, a.1 ≠ g) :
    (ring.insertIdx (ring.findIdx fun a => decide (g ≤ a.1)) (g, key)).Pairwise
      fun a b => a.1 < b.1 := by
  induction ring with
  | nil => exact List.pairwise_singleton _ _
  | cons a rest ih =>
    obtain ⟨hfirst, hrest⟩ := List.pairwise_cons.1 hrising
    rw [List.findIdx_cons]
    by_cases hbefore : g ≤ a.1
    · have hlt : g < a.1 := by
        apply UInt64.lt_of_le_of_ne hbefore
        exact Ne.symm (hnew a List.mem_cons_self)
      rw [decide_eq_true hbefore, cond_true, List.insertIdx_zero]
      apply List.pairwise_cons.2 ⟨?_, hrising⟩
      intro b hb
      rcases List.mem_cons.1 hb with rfl | hb
      · exact hlt
      · exact UInt64.lt_trans hlt (hfirst b hb)
    · rw [decide_eq_false hbefore, cond_false, List.insertIdx_succ_cons]
      apply List.pairwise_cons.2 ⟨?_, ih hrest fun b hb => hnew b (List.mem_cons_of_mem a hb)⟩
      intro b hb
      rcases List.eq_or_mem_of_mem_insertIdx hb with rfl | hb
      · exact UInt64.not_le.1 hbefore
      · exact hfirst b hb

/-- Each difference added back. -/
theorem relativeOutputOffsetsToAbsolute_go (first : UInt64) (rest : List UInt64) :
    relativeOutputOffsetsToAbsolute.go first (List.zipWith (· - ·) rest (first :: rest)) = rest := by
  induction rest generalizing first with
  | nil => rfl
  | cons next rest ih =>
    have hback : first + (next - first) = next := by
      rw [UInt64.add_comm, UInt64.sub_add_cancel]
    rw [List.zipWith_cons_cons]
    unfold relativeOutputOffsetsToAbsolute.go
    rw [hback, ih]

/-- Offsets survive the way there and back, sorted. -/
theorem relativeOutputOffsetsToAbsolute_relative (off : List UInt64) :
    relativeOutputOffsetsToAbsolute (absoluteOutputOffsetsToRelative off) =
      off.insertionSort (· ≤ ·) := by
  unfold absoluteOutputOffsetsToRelative relativeOutputOffsetsToAbsolute
  simp only
  cases off.insertionSort (· ≤ ·) with
  | nil => rfl
  | cons first rest =>
    show relativeOutputOffsetsToAbsolute.go 0 (first :: _) = _
    unfold relativeOutputOffsetsToAbsolute.go
    rw [UInt64.zero_add, relativeOutputOffsetsToAbsolute_go]

theorem insertionSort_of_rising {l : List UInt64} (h : l.Pairwise (· < ·)) :
    l.insertionSort (· ≤ ·) = l :=
  (h.imp UInt64.le_of_lt).insertionSort_eq

/-! ## The other outputs -/

section

variable {fakeOutputsCount : Nat} {real : UInt64} {outs : List OutEntry}

/-- Every output of the answer but the real one, by rising indexes. -/
def otherOutputs (real : UInt64) (outs : List OutEntry) : List OutEntry :=
  (outs.insertionSort fun a b => a.globalAmountIndex ≤ b.globalAmountIndex).filter
    fun oe => oe.globalAmountIndex ≠ real

theorem otherOutputs_rising (h : (outs.map (·.globalAmountIndex)).Nodup) :
    (otherOutputs real outs).Pairwise fun a b => a.globalAmountIndex < b.globalAmountIndex := by
  let byIndex (a b : OutEntry) : Prop := a.globalAmountIndex ≤ b.globalAmountIndex
  have : Std.Total byIndex := ⟨fun a b => UInt64.le_total _ _⟩
  have : IsTrans OutEntry byIndex := ⟨fun _ _ _ => UInt64.le_trans⟩
  have hsorted := List.pairwise_insertionSort byIndex outs
  have hperm := List.perm_insertionSort byIndex outs
  have hnodup := (hperm.map (·.globalAmountIndex)).nodup_iff.2 h
  have hdistinct := List.pairwise_map.1 hnodup
  apply List.Pairwise.filter
  exact (hsorted.and hdistinct).imp fun hboth => UInt64.lt_of_le_of_ne hboth.1 hboth.2

/-- There are enough of them exactly if the answer has one to spare or does not
hold the real output. -/
theorem otherOutputs_enough (h : (outs.map (·.globalAmountIndex)).Nodup)
    (hanswered : fakeOutputsCount ≤ outs.length) :
    fakeOutputsCount ≤ (otherOutputs real outs).length ↔
      fakeOutputsCount < outs.length ∨ real ∉ outs.map (·.globalAmountIndex) := by
  have hlength : (otherOutputs real outs).length =
      ((outs.map (·.globalAmountIndex)).erase real).length := by
    have hperm := List.perm_insertionSort
      (fun a b : OutEntry => a.globalAmountIndex ≤ b.globalAmountIndex) outs
    unfold otherOutputs
    rw [(hperm.filter _).length_eq, h.erase_eq_filter, List.filter_map, List.length_map]
    congr 2
    funext oe
    simp only [ne_eq, decide_not, Function.comp_apply]
    rfl
  rw [hlength]
  by_cases hmem : real ∈ outs.map (·.globalAmountIndex)
  · have hpos := List.length_pos_of_mem hmem
    rw [List.length_erase_of_mem hmem]
    rw [List.length_map] at hpos ⊢
    constructor
    · intro henough
      exact .inl (by omega)
    · rintro (hspare | habsent)
      · omega
      · exact absurd hmem habsent
  · rw [List.erase_of_not_mem hmem, List.length_map]
    exact ⟨fun _ => .inr hmem, fun _ => hanswered⟩

theorem fakeOutputs_rising (fakeOutputsCount : Nat) (real : UInt64)
    (h : (outs.map (·.globalAmountIndex)).Nodup) :
    (fakeOutputs fakeOutputsCount real outs).Pairwise fun a b => a.1 < b.1 := by
  show (((otherOutputs real outs).take fakeOutputsCount).map fun oe =>
    (oe.globalAmountIndex, oe.outKey)).Pairwise _
  exact List.pairwise_map.2 (otherOutputs_rising h).take

theorem fakeOutputs_other : ∀ a ∈ fakeOutputs fakeOutputsCount real outs, a.1 ≠ real := by
  intro a ha
  obtain ⟨oe, hoe, rfl⟩ := List.mem_map.1 ha
  have hother := (List.mem_filter.1 (List.mem_of_mem_take hoe)).2
  exact of_decide_eq_true hother

theorem fakeOutputs_length :
    (fakeOutputs fakeOutputsCount real outs).length =
      min fakeOutputsCount (otherOutputs real outs).length := by
  unfold fakeOutputs
  rw [List.length_map, List.length_take]
  rfl

end

/-! ## The ring of a source -/

/-- What holds of a ring whatever its size: it is in order, the wallet's own
output is where the source says, and the input leads back to it. -/
structure RingInOrder (td : TransferDetails) (src : TxSourceEntry) : Prop where
  rising : (src.outputs.map Prod.fst).Pairwise (· < ·)
  own : ∃ amount key mixAttr,
    td.mTx.vout[td.mInternalOutputIndex]? = some ⟨amount, .toKey key mixAttr⟩ ∧
      src.outputs[src.realOutput]? = some (td.mGlobalOutputIndex, key)
  recovered : ∀ img acc i, constructInput img acc src = some i →
    ∃ amount keyOffsets kImage, i = .toKey amount keyOffsets kImage ∧
      relativeOutputOffsetsToAbsolute keyOffsets = src.outputs.map Prod.fst

structure RingAsRequested (fakeOutputsCount : Nat) (td : TransferDetails) (src : TxSourceEntry) :
    Prop extends RingInOrder td src where
  size : src.outputs.length = fakeOutputsCount + 1

theorem constructInput_recovered {img : ImageDerivation} {acc : AccountBase} {src : TxSourceEntry}
    {i : Txin} (hrising : (src.outputs.map Prod.fst).Pairwise (· < ·))
    (h : constructInput img acc src = some i) :
    ∃ amount keyOffsets kImage, i = .toKey amount keyOffsets kImage ∧
      relativeOutputOffsetsToAbsolute keyOffsets = src.outputs.map Prod.fst := by
  unfold constructInput at h
  split at h
  · cases h
  · split at h
    · cases h
    · split at h
      · cases h
      · cases h
        refine ⟨_, _, _, rfl, ?_⟩
        rw [relativeOutputOffsetsToAbsolute_relative, insertionSort_of_rising hrising]

/-- One round of the loop over the selected transfers. -/
theorem makeSource_ring {env : Env} {fakeOutputsCount : Nat} {td : TransferDetails}
    {outs : List OutEntry} {src : TxSourceEntry}
    (hdistinct : (outs.map (·.globalAmountIndex)).Nodup)
    (h : makeSource env fakeOutputsCount td outs = .ok src) :
    RingInOrder td src ∧ src.outputs.length =
      min fakeOutputsCount (otherOutputs td.mGlobalOutputIndex outs).length + 1 := by
  unfold makeSource at h
  cases hout : td.mTx.vout[td.mInternalOutputIndex]? with
  | none =>
    rw [hout] at h
    cases h
  | some out =>
    obtain ⟨amount, target⟩ := out
    rw [hout] at h
    cases target with
    | toScript _ _ | toScripthash _ => cases h
    | toKey key mixAttr =>
      simp only at h
      cases hkey : getTxPubKeyFromExtra env td.mTx with
      | error ex =>
        rw [hkey] at h
        cases h
      | ok realOutTxKey =>
        rw [hkey] at h
        cases h
        have hplace : (fakeOutputs fakeOutputsCount td.mGlobalOutputIndex outs).findIdx
            (fun a => decide (td.mGlobalOutputIndex ≤ a.1)) ≤
            (fakeOutputs fakeOutputsCount td.mGlobalOutputIndex outs).length :=
          List.findIdx_le_length
        have hrising := rising_insert key
          (fakeOutputs_rising fakeOutputsCount td.mGlobalOutputIndex hdistinct) fakeOutputs_other
        refine ⟨⟨List.pairwise_map.2 hrising, ⟨amount, key, mixAttr, hout, ?_⟩, ?_⟩, ?_⟩
        · show (List.insertIdx _ _ _)[_]? = _
          rw [List.getElem?_insertIdx_self, if_pos hplace]
        · intro img acc i hi
          exact constructInput_recovered (List.pairwise_map.2 hrising) hi
        · show (List.insertIdx _ _ _).length = _
          rw [List.length_insertIdx_of_le_length hplace, fakeOutputs_length]

theorem makeSources_getElem {env : Env} {fakeOutputsCount : Nat} {tds : List TransferDetails}
    {outs : List (List OutEntry)} {sources : List TxSourceEntry}
    (h : makeSources env fakeOutputsCount tds outs = .ok sources) {i : Nat}
    {td : TransferDetails} {src : TxSourceEntry} (htd : tds[i]? = some td)
    (hsrc : sources[i]? = some src) :
    makeSource env fakeOutputsCount td (outs.getD i []) = .ok src := by
  induction tds generalizing outs sources i with
  | nil => cases htd
  | cons first rest ih =>
    unfold makeSources at h
    obtain ⟨source, hsource, h⟩ := bind_eq_ok_except.1 h
    obtain ⟨others, hothers, h⟩ := bind_eq_ok_except.1 h
    cases h
    cases i with
    | zero =>
      cases htd
      cases hsrc
      rw [List.headD_eq_getD] at hsource
      exact hsource
    | succ i =>
      have hrest := ih hothers htd hsrc
      rw [show outs.getD (i + 1) [] = outs.tail.getD i [] by cases outs <;> rfl]
      exact hrest

/-- What the checks on the daemon's answer leave. -/
theorem askRandomOuts_enough {te : TransferEnv} {fakeOutputsCount : Nat}
    {tds : List TransferDetails} {answer : List (List OutEntry)}
    (h : askRandomOuts te fakeOutputsCount tds = .ok answer) {i : Nat} (hi : i < tds.length) :
    fakeOutputsCount ≤ (answer.getD i []).length ∧
      (answer.getD i [] = [] ∨ answer.getD i [] ∈ answer) := by
  unfold askRandomOuts at h
  by_cases hnone : fakeOutputsCount = 0
  · rw [if_pos hnone] at h
    cases h
    exact ⟨Nat.le_of_eq hnone, .inl rfl⟩
  · rw [if_neg hnone] at h
    split at h
    · cases h
    · split at h
      · cases h
      · next outs _ =>
        split at h
        · cases h
        · next hcount =>
          split at h
          · cases h
          · next hscanty =>
            cases h
            have hlt : i < answer.length := by omega
            have hget : answer.getD i [] = answer[i] := by
              rw [List.getD_eq_getElem?_getD, List.getElem?_eq_getElem hlt, Option.getD_some]
            have hmem : answer.getD i [] ∈ answer := by
              rw [hget]
              exact List.getElem_mem hlt
            refine ⟨?_, .inr hmem⟩
            by_contra hfew
            apply hscanty
            exact List.any_eq_true.2 ⟨_, hmem, decide_eq_true (Nat.not_le.1 hfew)⟩

/-- Of every transfer selected, with whatever the daemon answered. -/
theorem rings_as_requested (te : TransferEnv) (fakeOutputsCount : Nat) (tds : List TransferDetails)
    (answer : List (List OutEntry)) (sources : List TxSourceEntry)
    (hasked : askRandomOuts te fakeOutputsCount tds = .ok answer)
    (hdistinct : ∀ outs ∈ answer, (outs.map (·.globalAmountIndex)).Nodup)
    (hsources : makeSources te.we.env fakeOutputsCount tds answer = .ok sources) :
    ∀ i td src, tds[i]? = some td → sources[i]? = some src →
      RingInOrder td src ∧
      (RingAsRequested fakeOutputsCount td src ↔
        fakeOutputsCount < (answer.getD i []).length ∨
          td.mGlobalOutputIndex ∉ (answer.getD i []).map (·.globalAmountIndex)) := by
  intro i td src htd hsrc
  obtain ⟨hi, -⟩ := List.getElem?_eq_some_iff.1 htd
  obtain ⟨henough, hmem⟩ := askRandomOuts_enough hasked hi
  have hnodup : ((answer.getD i []).map (·.globalAmountIndex)).Nodup := by
    rcases hmem with hnil | hmem
    · rw [hnil]
      exact List.nodup_nil
    · exact hdistinct _ hmem
  obtain ⟨horder, hlength⟩ := makeSource_ring hnodup (makeSources_getElem hsources htd hsrc)
  refine ⟨horder, ?_⟩
  rw [← otherOutputs_enough hnodup henough]
  constructor
  · intro hring
    have hsize := hring.size
    omega
  · intro hall
    refine ⟨horder, ?_⟩
    omega

namespace Devnet

/-- A daemon with the outputs of these indexes for every amount. -/
def mixing (indexes : List UInt64) : TransferEnv :=
  { transferEnv with
    getRandomOuts := fun amounts _ =>
      .response .ok (amounts.map fun _ => indexes.map fun index => ⟨index, 50⟩) }

/-- The payment's source in a ring with these others. -/
def paymentSource (others : List (UInt64 × PublicKey)) : TxSourceEntry where
  outputs := (0, oneTimeKey purse.keys.mAccountAddress 1 0) :: others
  realOutput := 0
  realOutTxKey := 1
  realOutputInTxIndex := 0
  amount := unit

end Devnet

/-- Two requested, and three in the answer, the payment among them. -/
theorem rings_as_requested_spare :
    RingAsRequested 2 Devnet.payment (Devnet.paymentSource [(4, 50), (9, 50)]) := by
  have hasked : askRandomOuts (Devnet.mixing [9, 0, 4]) 2 [Devnet.payment] =
      .ok [[⟨9, 50⟩, ⟨0, 50⟩, ⟨4, 50⟩]] := rfl
  have hsources : makeSources (Devnet.mixing [9, 0, 4]).we.env 2 [Devnet.payment]
      [[⟨9, 50⟩, ⟨0, 50⟩, ⟨4, 50⟩]] = .ok [Devnet.paymentSource [(4, 50), (9, 50)]] := rfl
  obtain ⟨-, hexact⟩ := rings_as_requested (Devnet.mixing [9, 0, 4]) 2 [Devnet.payment] _ _ hasked
    (by decide) hsources 0 Devnet.payment _ rfl rfl
  exact hexact.2 (.inl (by decide))

/-- Two requested and two in the answer, the payment one of them: a ring of two. -/
theorem rings_as_requested_no_spare :
    askRandomOuts (Devnet.mixing [9, 0]) 2 [Devnet.payment] = .ok [[⟨9, 50⟩, ⟨0, 50⟩]] ∧
      makeSources (Devnet.mixing [9, 0]).we.env 2 [Devnet.payment] [[⟨9, 50⟩, ⟨0, 50⟩]] =
        .ok [Devnet.paymentSource [(9, 50)]] ∧
      ¬ RingAsRequested 2 Devnet.payment (Devnet.paymentSource [(9, 50)]) := by
  refine ⟨rfl, rfl, ?_⟩
  intro hring
  have hsize : 2 = 2 + 1 := hring.size
  exact absurd hsize (by decide)

end DarknetSpace
