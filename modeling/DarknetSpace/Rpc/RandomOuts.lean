import DarknetSpace.Chain.Inputs
import DarknetSpace.Chain.Outputs
import DarknetSpace.Core.Core

/-!
# Random outputs for a ring (`get_random_outs_for_amounts`)

`m_outputs` keeps for each amount a vector of transaction indexes with output
numbers. The functions that choose among them are written for a vector of
transaction ids with output numbers, and are given the stored vector by a cast
of the reference. An element of the one takes 12 bytes and of the other 40, and
nothing in the buffer is an id, so the first use of the cast vector is already
undefined. The answer is what it should be only while no requested amount has
an output.

The two types are compared as the compiler lays them out, so that where the code reads
is a matter of sizes and not of names. Main result: `getRandomOutsForAmounts_real_iff`,
for every storage, request and draw: what is served are real outputs of the amounts just
where there is nothing to serve.
-/

namespace DarknetSpace

def currencyToKeyOutRelaxed : UInt8 := 0

structure RandomOutsRequest where
  amounts : List UInt64
  outsCount : UInt64
  useForcedMixOuts : Bool

/-- `out_entry`. -/
structure RandomOutEntry where
  globalAmountIndex : Nat
  outKey : PublicKey

structure OutsForAmount where
  amount : UInt64
  outs : List RandomOutEntry

/-- `std::vector<std::pair<crypto::hash, size_t> >`. -/
abbrev AmountIds := List (Hash × Nat)

/-- `(std::vector<std::pair<crypto::hash, size_t> >&)it->second`, and what reads
through it. A vector without elements has no element of either type. -/
def castOuts : AmountOuts → Except Exn AmountIds
  | [] => .ok []
  | _ :: _ => .error .undefinedBehaviour

namespace Storage

variable (now : Nat) (s : Storage)

/-! ## The source -/

/-- The tests on `mix_attr`. -/
def mixAdmissible (mixAttr : UInt8) (mixCount : UInt64) (useOnlyForcedToMix : Bool) : Bool :=
  if mixAttr = currencyToKeyOutForcedNoMix then false
  else if useOnlyForcedToMix ∧ mixAttr = currencyToKeyOutRelaxed then false
  else if mixAttr ≠ currencyToKeyOutRelaxed ∧ mixCount.toNat < mixAttr.toNat then false
  else true

/-- `add_out_to_get_random_outs`: the entry it adds, if it adds one. -/
def addOutToGetRandomOuts (amountOuts : AmountIds) (i : Nat) (mixCount : UInt64)
    (useOnlyForcedToMix : Bool) : Except Exn (Option RandomOutEntry) :=
  match amountOuts[i]? with
  | none => .error .undefinedBehaviour
  | some (id, out) =>
    match s.mTransactions[id]? with
    | none => .ok none
    | some idx => do
      let txe ← s.transactionByIndex idx
      match txe.tx.vout[out]? with
      | none => return none
      | some o =>
        match o.target with
        | .toKey key mixAttr =>
          if txe.mSpentFlags.length ≠ txe.tx.vout.length then return none
          else if txe.mSpentFlags[out]? = some true then return none
          else if ¬ isTxSpendtimeUnlocked now s txe.tx.unlockTime then return none
          else if ¬ mixAdmissible mixAttr mixCount useOnlyForcedToMix then return none
          else return some ⟨i, key⟩
        | _ => return none

/-- The loop of `find_end_of_allowed_index`, with so many elements still to
look at. -/
def findEndOfAllowedIndexFrom (amountOuts : AmountIds) : Nat → Except Exn Nat
  | 0 => .ok 0
  | i + 1 =>
    match amountOuts[i]? with
    | none => .error .undefinedBehaviour
    | some (id, _) =>
      match s.mTransactions[id]? with
      | none => .ok 0
      | some idx => do
        let txe ← s.transactionByIndex idx
        if txe.mKeeperBlockHeight + currencyMinedMoneyUnlockWindow ≤ s.getCurrentBlockchainHeight
        then return i + 1
        else findEndOfAllowedIndexFrom amountOuts i

def findEndOfAllowedIndex (amountOuts : AmountIds) : Except Exn Nat :=
  s.findEndOfAllowedIndexFrom amountOuts amountOuts.length

/-- The loop over random indexes; its `k`-th draw is `rand k`. -/
def sampleOuts (rand : Nat → Nat) (amountOuts : AmountIds) (req : RandomOutsRequest)
    (upIndexLimit : Nat) :
    (fuel k : Nat) → (used : List Nat) → (j tryCount : Nat) → List RandomOutEntry →
      Except Exn (List RandomOutEntry)
  | 0, _, _, _, _, _ => .error .endless
  | fuel + 1, k, used, j, tryCount, outs =>
    if j = req.outsCount.toNat ∨ upIndexLimit ≤ tryCount then .ok outs
    else
      let i := rand k % upIndexLimit
      if i ∈ used then sampleOuts rand amountOuts req upIndexLimit fuel (k + 1) used j tryCount outs
      else do
        let added ← addOutToGetRandomOuts now s amountOuts i req.outsCount req.useForcedMixOuts
        sampleOuts rand amountOuts req upIndexLimit fuel (k + 1) (i :: used)
          (j + added.toList.length) (tryCount + 1) (outs ++ added.toList)

/-- The loop over all indexes below the limit. -/
def allOuts (amountOuts : AmountIds) (req : RandomOutsRequest) :
    (is : List Nat) → List RandomOutEntry → Except Exn (List RandomOutEntry)
  | [], outs => .ok outs
  | i :: is, outs => do
    let added ← addOutToGetRandomOuts now s amountOuts i req.outsCount req.useForcedMixOuts
    allOuts amountOuts req is (outs ++ added.toList)

/-- One requested amount; `none` where the request fails. -/
def randomOutsForAmount (rand : Nat → Nat) (fuel : Nat) (req : RandomOutsRequest)
    (amount : UInt64) : Except Exn (Option (List RandomOutEntry)) :=
  match s.mOutputs[amount]? with
  | none => .ok (some [])
  | some stored => do
    let amountOuts ← castOuts stored
    let upIndexLimit ← s.findEndOfAllowedIndex amountOuts
    if amountOuts.length < upIndexLimit then return none
    else if req.outsCount.toNat < amountOuts.length then
      some <$> sampleOuts now s rand amountOuts req upIndexLimit fuel 0 [] 0 0 []
    else some <$> allOuts now s amountOuts req (List.range upIndexLimit) []

/-- The loop over the amounts; each draws its own random numbers. -/
def randomOutsForAmounts (rand : Nat → Nat → Nat) (fuel : Nat) (req : RandomOutsRequest) :
    List UInt64 → List OutsForAmount → Except Exn (Option (List OutsForAmount))
  | [], res => .ok (some res)
  | amount :: rest, res => do
    match ← randomOutsForAmount now s (rand res.length) fuel req amount with
    | none => return none
    | some outs => randomOutsForAmounts rand fuel req rest (res ++ [⟨amount, outs⟩])

def getRandomOutsForAmounts (rand : Nat → Nat → Nat) (fuel : Nat) (req : RandomOutsRequest) :
    Except Exn (Option (List OutsForAmount)) :=
  randomOutsForAmounts now s rand fuel req req.amounts []

/-! ## What the answer should be -/

/-- The output that `m_outputs[amount][i]` designates may stand in a ring for
this request, and `key` is its key. -/
structure Eligible (req : RandomOutsRequest) (amount : UInt64) (i : Nat) (key : PublicKey)
    (idx : TransactionIndex) (out : UInt16) (txe : TransactionEntry) (o : TxOut)
    (mixAttr : UInt8) : Prop where
  listed : (s.mOutputs.getD amount [])[i]? = some (idx, out)
  kept : s.transactionByIndex idx = .ok txe
  designated : txe.tx.vout[out.toNat]? = some o
  keyed : o.target = .toKey key mixAttr
  unspent : txe.mSpentFlags[out.toNat]? = some false
  unlocked : isTxSpendtimeUnlocked now s txe.tx.unlockTime = true
  deep : txe.mKeeperBlockHeight + currencyMinedMoneyUnlockWindow ≤ s.getCurrentBlockchainHeight
  admissible : mixAdmissible mixAttr req.outsCount req.useForcedMixOuts = true

/-- Output `i` of the amount is eligible, with that key. -/
def IsEligible (req : RandomOutsRequest) (amount : UInt64) (i : Nat) (key : PublicKey) : Prop :=
  ∃ idx out txe o mixAttr, Eligible now s req amount i key idx out txe o mixAttr

/-- The decoys for one amount: eligible outputs, no index twice, and as many as
asked for when there are that many. -/
structure RealDecoys (req : RandomOutsRequest) (answer : OutsForAmount) : Prop where
  eligible : ∀ e ∈ answer.outs,
    IsEligible now s req answer.amount e.globalAmountIndex e.outKey
  distinct : (answer.outs.map RandomOutEntry.globalAmountIndex).Nodup
  enough : ∀ is : List Nat, is.Nodup →
    (∀ i ∈ is, ∃ key, IsEligible now s req answer.amount i key) →
    req.outsCount.toNat ≤ is.length → answer.outs.length = req.outsCount.toNat

/-- The request is answered, amount by amount, with real decoys. -/
def AnswersWithRealDecoys (req : RandomOutsRequest)
    (r : Except Exn (Option (List OutsForAmount))) : Prop :=
  ∃ res, r = .ok (some res) ∧ res.map OutsForAmount.amount = req.amounts ∧
    ∀ answer ∈ res, RealDecoys now s req answer

/-! ## When it is -/

variable {now} {s}

theorem not_isEligible_of_no_outs {req : RandomOutsRequest} {amount : UInt64} {i : Nat}
    {key : PublicKey} (h : s.mOutputs.getD amount [] = []) :
    ¬ IsEligible now s req amount i key := by
  rintro ⟨idx, out, txe, o, mixAttr, he⟩
  have hl := he.listed
  rw [h] at hl
  cases hl

theorem realDecoys_of_no_outs {req : RandomOutsRequest} {amount : UInt64}
    (h : s.mOutputs.getD amount [] = []) : RealDecoys now s req ⟨amount, []⟩ where
  eligible := by
    intro e he
    cases he
  distinct := List.nodup_nil
  enough := by
    intro is _ hel hlen
    rcases is with _ | ⟨i, is⟩
    · exact (Nat.le_zero.1 hlen).symm
    · obtain ⟨key, hkey⟩ := hel i List.mem_cons_self
      exact absurd hkey (not_isEligible_of_no_outs h)

/-- An amount without outputs is answered by an empty list, whatever is drawn. -/
theorem randomOutsForAmount_of_no_outs {rand : Nat → Nat} {fuel : Nat} {req : RandomOutsRequest}
    {amount : UInt64} (h : s.mOutputs.getD amount [] = []) :
    randomOutsForAmount now s rand fuel req amount = .ok (some []) := by
  unfold randomOutsForAmount
  rw [Std.ExtTreeMap.getD_eq_getD_getElem?] at h
  cases hs : s.mOutputs[amount]? with
  | none => rfl
  | some stored =>
    rw [hs] at h
    have hn : stored = [] := h
    subst hn
    -- the limit is 0, so the loop over all indexes is taken and has none
    show (if ([] : AmountIds).length < 0 then .ok none
      else if req.outsCount.toNat < ([] : AmountIds).length then
        some <$> sampleOuts now s rand [] req 0 fuel 0 [] 0 0 []
      else .ok (some [])) = _
    rw [if_neg (Nat.not_lt_zero _)]
    exact if_neg (Nat.not_lt_zero _)

/-- An amount with outputs is never answered. -/
theorem randomOutsForAmount_of_outs {rand : Nat → Nat} {fuel : Nat} {req : RandomOutsRequest}
    {amount : UInt64} (h : s.mOutputs.getD amount [] ≠ []) :
    randomOutsForAmount now s rand fuel req amount = .error .undefinedBehaviour := by
  unfold randomOutsForAmount
  rw [getElem?_of_getD_ne_nil h]
  obtain ⟨p, rest, hp⟩ := List.exists_cons_of_ne_nil h
  rw [hp]
  rfl

/-- All amounts without outputs: the loop answers each by an empty list. -/
theorem randomOutsForAmounts_of_no_outs {rand : Nat → Nat → Nat} {fuel : Nat}
    {req : RandomOutsRequest} {amounts : List UInt64} {res : List OutsForAmount}
    (h : ∀ a ∈ amounts, s.mOutputs.getD a [] = []) :
    randomOutsForAmounts now s rand fuel req amounts res
      = .ok (some (res ++ amounts.map fun a => ⟨a, []⟩)) := by
  induction amounts generalizing res with
  | nil =>
    rw [List.map_nil, List.append_nil]
    rfl
  | cons a rest ih =>
    unfold randomOutsForAmounts
    rw [randomOutsForAmount_of_no_outs (h a List.mem_cons_self)]
    refine (ih fun b hb => h b (List.mem_cons_of_mem a hb)).trans ?_
    rw [List.append_assoc]
    rfl

/-- One amount with outputs is enough for there to be no answer. -/
theorem randomOutsForAmounts_of_outs {rand : Nat → Nat → Nat} {fuel : Nat}
    {req : RandomOutsRequest} {amounts : List UInt64} {res : List OutsForAmount} {a : UInt64}
    (ha : a ∈ amounts) (h : s.mOutputs.getD a [] ≠ []) :
    randomOutsForAmounts now s rand fuel req amounts res = .error .undefinedBehaviour := by
  induction amounts generalizing res with
  | nil => cases ha
  | cons b rest ih =>
    unfold randomOutsForAmounts
    by_cases hb : s.mOutputs.getD b [] = []
    · rw [randomOutsForAmount_of_no_outs hb]
      have hrest : a ∈ rest := by
        rcases List.mem_cons.1 ha with rfl | hrest
        · exact absurd hb h
        · exact hrest
      exact ih hrest
    · rw [randomOutsForAmount_of_outs hb]
      rfl

variable (now) (s)

/-- The decoys are real exactly when none are to be had: no requested amount
has an output. -/
theorem getRandomOutsForAmounts_real_iff (rand : Nat → Nat → Nat) (fuel : Nat)
    (req : RandomOutsRequest) :
    AnswersWithRealDecoys now s req (getRandomOutsForAmounts now s rand fuel req)
      ↔ ∀ amount ∈ req.amounts, s.mOutputs.getD amount [] = [] := by
  constructor
  · rintro ⟨res, hr, -, -⟩ amount hamount
    by_contra hne
    rw [getRandomOutsForAmounts, randomOutsForAmounts_of_outs hamount hne] at hr
    cases hr
  · intro h
    refine ⟨req.amounts.map fun a => ⟨a, []⟩, randomOutsForAmounts_of_no_outs h, ?_, ?_⟩
    · rw [List.map_map]
      exact List.map_id _
    · intro answer hanswer
      obtain ⟨a, ha, rfl⟩ := List.mem_map.1 hanswer
      exact realDecoys_of_no_outs (h a ha)

end Storage

namespace Devnet

/-- One decoy of the coinbases' first amount. -/
def oneDecoy : RandomOutsRequest := ⟨[unit], 1, false⟩

/-- Asked for it after the genesis block, the node has an output of that amount
and reads it through the cast. -/
theorem decoys_not_answered :
    Reachable env (node ∅ []) ∧
      ¬ Storage.AnswersWithRealDecoys now (node ∅ []).chain oneDecoy
        (Storage.getRandomOutsForAmounts now (node ∅ []).chain (fun _ k => k) 10 oneDecoy) := by
  refine ⟨reachable_node ∅ [] (by decide +kernel), ?_⟩
  rintro ⟨res, hr, -, -⟩
  have hne : (node ∅ []).chain.mOutputs.getD unit [] ≠ [] := by decide +kernel
  have herr : Storage.getRandomOutsForAmounts now (node ∅ []).chain (fun _ k => k) 10 oneDecoy
      = .error .undefinedBehaviour :=
    Storage.randomOutsForAmounts_of_outs List.mem_cons_self hne
  cases herr.symm.trans hr

end Devnet

end DarknetSpace
