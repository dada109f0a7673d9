import DarknetSpace.Wallet.FreeOutputs

/-!
# The transaction that is built

`buildTransfer` selects outputs, makes the change, splits, asks for rings, and
constructs the transaction. Each of these keeps amounts, one lemma for each:
`makeSources_amounts` and `constructInputs_amounts` for the inputs, which take over
amount and key image of what was selected, `constructDestOuts_paidOut` for the outputs,
which are the entries in some order.

`buildTransfer_eq_ok` names the steps of a transfer that goes through, once and for
all; what is proved of a transfer anywhere starts from there. Put together, the
inputs of the transaction are its outputs, the fee and the dust of the change
(`PaysExactly`, `buildTransfer_pays`), for any strategy that keeps amounts
(`ExactStrategy`).
-/

namespace DarknetSpace

open StateExn

/-! ## Inputs and outputs -/

/-- The sources carry the amounts of their transfers. -/
theorem makeSources_amounts {env : Env} {fakeOutputsCount : Nat} {tds : List TransferDetails}
    {outs : List (List OutEntry)} {sources : List TxSourceEntry}
    (h : makeSources env fakeOutputsCount tds outs = .ok sources) :
    sources.map (·.amount) = tds.map TransferDetails.amount := by
  induction tds generalizing outs sources with
  | nil =>
    cases h
    rfl
  | cons td rest ih =>
    unfold makeSources at h
    obtain ⟨src, hsrc, h⟩ := bind_eq_ok_except.1 h
    obtain ⟨srcs, hsrcs, h⟩ := bind_eq_ok_except.1 h
    cases h
    rw [List.map_cons, List.map_cons, ih hsrcs]
    congr 1
    unfold makeSource at hsrc
    unfold TransferDetails.amount
    cases hout : td.mTx.vout[td.mInternalOutputIndex]? with
    | none =>
      rw [hout] at hsrc
      cases hsrc
    | some out =>
      obtain ⟨amount, target⟩ := out
      rw [hout] at hsrc
      cases target with
      | toScript _ _ | toScripthash _ => cases hsrc
      | toKey key mixAttr =>
        simp only at hsrc
        split at hsrc
        · cases hsrc
        · cases hsrc
          rfl

/-- The inputs carry the amounts of their sources. -/
theorem constructInputs_amounts {img : ImageDerivation} {acc : AccountBase}
    {sources : List TxSourceEntry} {vin : List Txin}
    (h : constructInputs img acc sources = some vin) :
    vin.map Txin.amountNat = sources.map (·.amount.toNat) := by
  induction sources generalizing vin with
  | nil =>
    cases h
    rfl
  | cons src rest ih =>
    unfold constructInputs at h
    split at h
    · next i is hi his =>
      cases h
      rw [List.map_cons, List.map_cons, ih his]
      congr 1
      unfold constructInput at hi
      split at hi
      · cases hi
      · split at hi
        · cases hi
        · split at hi
          · cases hi
          · cases hi
            rfl
    · cases h

/-- Every input that was built has a key image. -/
theorem constructInputs_keyImages {img : ImageDerivation} {acc : AccountBase}
    {sources : List TxSourceEntry} {vin : List Txin}
    (h : constructInputs img acc sources = some vin) : ∀ i ∈ vin, (inputImage? i).isSome = true := by
  induction sources generalizing vin with
  | nil =>
    cases h
    exact fun i hi => absurd hi List.not_mem_nil
  | cons src rest ih =>
    unfold constructInputs at h
    split at h
    · next i is hi his =>
      cases h
      intro x hx
      rcases List.mem_cons.1 hx with rfl | hx
      · unfold constructInput at hi
        split at hi
        · cases hi
        · split at hi
          · cases hi
          · split at hi
            · cases hi
            · cases hi
              rfl
      · exact ih his x hx
    · cases h

/-- The outputs of the entries, one after the other, from `first` on. -/
def PaidOut (kd : KeyDerivation) (txkey : SecretKey) (first : Nat)
    (des : List TxDestinationEntry) (vout : List TxOut) : Prop :=
  vout.map (·.amount) = des.map (·.amount) ∧
    ∀ i p, des[i]? = some p → ∃ key, kd.outKey p.addr txkey (first + i) = some key ∧
      vout[i]? = some ⟨p.amount, .toKey key 0⟩

/-- The outputs pay the destinations. -/
theorem constructDestOuts_paidOut {kd : KeyDerivation} {txkey : SecretKey} {first : Nat}
    {des : List TxDestinationEntry} {vout : List TxOut}
    (h : constructDestOuts kd txkey first des = some vout) : PaidOut kd txkey first des vout := by
  induction des generalizing first vout with
  | nil =>
    cases h
    exact ⟨rfl, fun i p hp => by cases hp⟩
  | cons de rest ih =>
    unfold constructDestOuts at h
    by_cases hzero : de.amount = 0
    · rw [if_pos hzero] at h
      cases h
    · rw [if_neg hzero] at h
      split at h
      · next o os ho hos =>
        cases h
        obtain ⟨hamounts, hplaces⟩ := ih hos
        unfold constructTxOut at ho
        obtain ⟨key, hkey, rfl⟩ := Option.map_eq_some_iff.1 ho
        refine ⟨by rw [List.map_cons, List.map_cons, hamounts], ?_⟩
        intro i p hp
        cases i with
        | zero =>
          cases hp
          exact ⟨key, hkey, rfl⟩
        | succ i =>
          obtain ⟨key', hkey', hout⟩ := hplaces i p hp
          refine ⟨key', ?_, hout⟩
          rw [← hkey']
          congr 1
          omega
      · cases h

/-- With a derivation for each destination the outputs can be made. -/
theorem constructDestOuts_of_derived (kd : KeyDerivation) (txkey : SecretKey) (first : Nat)
    {des : List TxDestinationEntry} (hpos : ∀ p ∈ des, p.amount ≠ 0)
    (hkeys : ∀ p ∈ des, ∀ i, (kd.outKey p.addr txkey i).isSome = true) :
    ∃ vout, constructDestOuts kd txkey first des = some vout := by
  induction des generalizing first with
  | nil => exact ⟨[], rfl⟩
  | cons de rest ih =>
    obtain ⟨os, hos⟩ := ih (first + 1) (fun p hp => hpos p (List.mem_cons_of_mem _ hp))
      (fun p hp => hkeys p (List.mem_cons_of_mem _ hp))
    obtain ⟨key, hkey⟩ := Option.isSome_iff_exists.1 (hkeys de List.mem_cons_self first)
    unfold constructDestOuts constructTxOut
    rw [if_neg (hpos de List.mem_cons_self), hos, hkey]
    exact ⟨_, rfl⟩

/-- What a transaction that was built consists of. -/
theorem constructTx_some {te : TransferEnv} {acc : AccountBase} {sources : List TxSourceEntry}
    {des : List TxDestinationEntry} {extra : Blob} {unlockTime : UInt64} {tx : Transaction}
    (h : constructTx te acc sources des extra unlockTime = some tx) :
    tx.vin.map Txin.amountNat = sources.map (·.amount.toNat) ∧
      (∀ i ∈ tx.vin, (inputImage? i).isSome = true) ∧
      PaidOut te.kd te.txkey 0 (te.shuffle.sort des) tx.vout := by
  unfold constructTx at h
  split at h
  · cases h
  · next vin hvin =>
    split at h
    · cases h
    · next vout hvout =>
      split at h
      · cases h
      · cases h
        exact ⟨constructInputs_amounts hvin, constructInputs_keyImages hvin,
          constructDestOuts_paidOut hvout⟩

/-- A sum that fits does not wrap. -/
theorem toNat_sumAmounts {l : List UInt64} (h : (l.map UInt64.toNat).sum < 2 ^ 64) :
    (sumAmounts l).toNat = (l.map UInt64.toNat).sum := by
  unfold sumAmounts
  induction l with
  | nil => rfl
  | cons a rest ih =>
    rw [List.map_cons, List.sum_cons] at h ⊢
    rw [List.foldr_cons, UInt64.toNat_add, ih (by omega)]
    exact Nat.mod_eq_of_lt h

theorem entriesTotal_perm {a b : List TxDestinationEntry} (h : a.Perm b) :
    entriesTotal a = entriesTotal b :=
  (h.map _).sum_eq

theorem entriesTotal_append (a b : List TxDestinationEntry) :
    entriesTotal (a ++ b) = entriesTotal a + entriesTotal b := by
  unfold entriesTotal
  rw [List.map_append, List.sum_append]

/-- The money of the destinations is that of their parts. -/
theorem entriesTotal_parts {dsts : List TxDestinationEntry} {parts : List (List TxDestinationEntry)}
    (h : List.Forall₂ (fun de part => (∀ p ∈ part, p.addr = de.addr) ∧
      entriesTotal part = de.amount.toNat) dsts parts) :
    entriesTotal parts.flatten = entriesTotal dsts := by
  induction h with
  | nil => rfl
  | cons hpart _ ih =>
    rw [List.flatten_cons, entriesTotal_append, hpart.2, ih]
    rfl

/-! ## The transaction -/

/-- What a transfer is asked to do, done: distinct outputs that are unspent and
unlocked go in; each destination gets its amount, the wallet the change without
the dust; the fee and the dust are left. -/
structure PaysExactly (te : TransferEnv) (o : TransferOrder) (w : Wallet2)
    (built : BuiltTransfer) : Prop where
  distinct : built.selected.Nodup
  unspent : ∀ i ∈ built.selected, ∃ td, w.mTransfers[i]? = some td ∧ td.mSpent = false ∧
    w.isTransferUnlocked te.now td = true
  inputs : built.tx.vin.map Txin.amountNat =
    (built.selected.filterMap fun i => w.mTransfers[i]?).map (·.amount.toNat)
  found : inputsTotal built.tx.toTransactionPrefix = built.foundMoney.toNat
  needed : built.neededMoney.toNat = o.fee.toNat + entriesTotal o.dsts
  outputs : ∃ parts change placed, placed.Perm (parts.flatten ++ change) ∧
    PaidOut te.kd te.txkey 0 placed built.tx.vout ∧
    List.Forall₂ (fun de part => (∀ p ∈ part, p.addr = de.addr) ∧
      entriesTotal part = de.amount.toNat) o.dsts parts ∧
    (∀ p ∈ change, p.addr = w.mAccount.keys.mAccountAddress) ∧
    entriesTotal change + built.dust.toNat + built.neededMoney.toNat = built.foundMoney.toNat
  dust : built.dust ≤ o.dustPolicy.dustThreshold
  fee : inputsTotal built.tx.toTransactionPrefix =
    outsTotal built.tx.toTransactionPrefix + o.fee.toNat + built.dust.toNat

/-- The selected outputs come to what was found. -/
theorem chosen_total {w : Wallet2} {chosen : List (UInt64 × Nat)}
    (h : ∀ p ∈ chosen, ∃ td, w.mTransfers[p.2]? = some td ∧ td.amount = p.1) :
    (((chosen.map Prod.snd).filterMap fun i => w.mTransfers[i]?).map
      (·.amount.toNat)).sum = pairsTotal chosen := by
  induction chosen with
  | nil => rfl
  | cons p rest ih =>
    obtain ⟨td, htd, hamount⟩ := h p List.mem_cons_self
    have hrest := ih fun q hq => h q (List.mem_cons_of_mem _ hq)
    rw [List.map_cons, List.filterMap_cons_some htd, List.map_cons, List.sum_cons, hrest, hamount]
    rfl

/-- The change is as large as what was found beyond what was needed. -/
theorem makeChange_amount {w : Wallet2} {found needed : UInt64} (h : needed ≤ found) :
    (makeChange w found needed).amount.toNat + needed.toNat = found.toNat := by
  have hle := UInt64.le_iff_toNat_le.1 h
  unfold makeChange
  by_cases hlt : needed < found
  · rw [if_pos hlt]
    show (found - needed).toNat + _ = _
    rw [UInt64.toNat_sub_of_le _ _ h]
    omega
  · rw [if_neg hlt]
    have hge := UInt64.le_iff_toNat_le.1 (UInt64.not_lt.1 hlt)
    show 0 + needed.toNat = found.toNat
    omega

/-- Entries of the change are the wallet's own: without a change there are none. -/
theorem change_own {w : Wallet2} {found needed : UInt64} {change : List TxDestinationEntry}
    {dust : Nat} (hle : needed ≤ found)
    (haddr : ∀ p ∈ change, p.addr = (makeChange w found needed).addr)
    (htotal : entriesTotal change + dust = (makeChange w found needed).amount.toNat)
    (hpos : ∀ p ∈ change, p.amount ≠ 0) :
    ∀ p ∈ change, p.addr = w.mAccount.keys.mAccountAddress := by
  intro p hp
  by_cases hmore : needed < found
  · rw [haddr p hp]
    unfold makeChange
    rw [if_pos hmore]
  · have hamount := makeChange_amount (w := w) hle
    have hentry : p.amount.toNat ≤ entriesTotal change :=
      List.single_le_sum (by simp) _ (List.mem_map_of_mem (f := (·.amount.toNat)) hp)
    have hge := UInt64.le_iff_toNat_le.1 (UInt64.not_lt.1 hmore)
    have hzero : p.amount.toNat = 0 := by omega
    exact absurd (UInt64.toNat_inj.1 hzero) (hpos p hp)

/-- The sources hold what was found. -/
theorem sources_total {env : Env} {w : Wallet2} {fakeOutputsCount : Nat}
    {outs : List (List OutEntry)} {sources : List TxSourceEntry} {chosen : List (UInt64 × Nat)}
    (hsources : makeSources env fakeOutputsCount
      ((chosen.map Prod.snd).filterMap fun i => w.mTransfers[i]?) outs = .ok sources)
    (hchosen : ∀ p ∈ chosen, ∃ td, w.mTransfers[p.2]? = some td ∧ td.amount = p.1) :
    sources.map (·.amount.toNat) =
        ((chosen.map Prod.snd).filterMap fun i => w.mTransfers[i]?).map (·.amount.toNat) ∧
      (sources.map (·.amount.toNat)).sum = pairsTotal chosen := by
  have hsame := congrArg (List.map UInt64.toNat) (makeSources_amounts hsources)
  rw [List.map_map, List.map_map] at hsame
  refine ⟨hsame, ?_⟩
  rw [← chosen_total hchosen]
  exact congrArg List.sum hsame

/-- The outputs hold what was split. -/
theorem outs_total {te : TransferEnv} {dsts splitted change : List TxDestinationEntry}
    {parts : List (List TxDestinationEntry)} {vout : List TxOut}
    (hpaid : PaidOut te.kd te.txkey 0 (te.shuffle.sort splitted) vout)
    (hentries : splitted = parts.flatten ++ change)
    (hparts : List.Forall₂ (fun de part => (∀ p ∈ part, p.addr = de.addr) ∧
      entriesTotal part = de.amount.toNat) dsts parts) :
    (vout.map (·.amount.toNat)).sum = entriesTotal dsts + entriesTotal change := by
  have hsame := congrArg (List.map UInt64.toNat) hpaid.1
  rw [List.map_map, List.map_map] at hsame
  refine (congrArg List.sum hsame).trans ?_
  show entriesTotal (te.shuffle.sort splitted) = _
  rw [entriesTotal_perm (te.shuffle.perm splitted), hentries, entriesTotal_append,
    entriesTotal_parts hparts]

/-- A strategy whose entries come to what it is given. -/
def ExactStrategy (strategy : SplitStrategy) : Prop :=
  ∀ {dsts changeDst dustThreshold r}, strategy dsts changeDst dustThreshold = some r →
    Splits dsts changeDst dustThreshold r.1 r.2

/-- `split_destinations` hands the strategy the destinations and the change. -/
theorem splitDestinations_splits {o : TransferOrder} {change : TxDestinationEntry}
    {split : List TxDestinationEntry × UInt64}
    (hsplits : ExactStrategy o.destinationSplitStrategy) (hfee : o.dustPolicy.addToFee = true)
    (h : splitDestinations o change = .ok split) :
    Splits o.dsts change o.dustPolicy.dustThreshold split.1 split.2 := by
  unfold splitDestinations at h
  split at h
  · cases h
  · next splitted dust hstrategy =>
    split at h
    · cases h
    · split at h
      · next hkept =>
        rw [hfee] at hkept
        exact absurd hkept.2 Bool.noConfusion
      · cases h
        exact hsplits hstrategy

/-- A transaction was built when every step towards it succeeded. -/
theorem buildTransfer_eq_ok {te : TransferEnv} {o : TransferOrder} {w : Wallet2}
    {built : BuiltTransfer} :
    buildTransfer te o w = .ok built ↔ ∃ outs sources entries,
      computeNeededMoney o = .ok built.neededMoney ∧
      selectTransfers te.now built.neededMoney o.fakeOutputsCount w =
        .ok (built.foundMoney, built.selected) ∧
      built.neededMoney ≤ built.foundMoney ∧
      askRandomOuts te o.fakeOutputsCount (built.selected.filterMap fun i => w.mTransfers[i]?) =
        .ok outs ∧
      makeSources te.we.env o.fakeOutputsCount
        (built.selected.filterMap fun i => w.mTransfers[i]?) outs = .ok sources ∧
      built.changeDts = makeChange w built.foundMoney built.neededMoney ∧
      splitDestinations o built.changeDts = .ok (entries, built.dust) ∧
      constructTx te w.mAccount sources entries o.extra o.unlockTime = some built.tx := by
  unfold buildTransfer
  constructor
  · intro h
    obtain ⟨needed, hneeded, h⟩ := bind_eq_ok_except.1 h
    obtain ⟨found, hfound, h⟩ := bind_eq_ok_except.1 h
    by_cases hshort : found.1 < needed
    · rw [if_pos hshort] at h
      cases h
    · rw [if_neg hshort] at h
      obtain ⟨outs, houts, h⟩ := bind_eq_ok_except.1 h
      obtain ⟨sources, hsources, h⟩ := bind_eq_ok_except.1 h
      obtain ⟨split, hsplit, h⟩ := bind_eq_ok_except.1 h
      split at h
      · cases h
      · next tx htx =>
        cases h
        exact ⟨outs, sources, split.1, hneeded, hfound, UInt64.not_lt.1 hshort, houts, hsources,
          rfl, hsplit, htx⟩
  · rintro ⟨outs, sources, entries, hneeded, hfound, henough, houts, hsources, hchange, hsplit, htx⟩
    apply bind_eq_ok_except.2 ⟨_, hneeded, ?_⟩
    apply bind_eq_ok_except.2 ⟨_, hfound, ?_⟩
    rw [if_neg (UInt64.not_lt.2 henough)]
    apply bind_eq_ok_except.2 ⟨_, houts, ?_⟩
    apply bind_eq_ok_except.2 ⟨_, hsources, ?_⟩
    rw [hchange] at hsplit
    apply bind_eq_ok_except.2 ⟨_, hsplit, ?_⟩
    simp only [htx, ← hchange]
    rfl

/-- A transaction that was built pays what was asked. -/
theorem buildTransfer_pays {te : TransferEnv} {o : TransferOrder} {w : Wallet2}
    {built : BuiltTransfer} (hsplits : ExactStrategy o.destinationSplitStrategy)
    (hfee : o.dustPolicy.addToFee = true) (h : buildTransfer te o w = .ok built) :
    PaysExactly te o w built := by
  obtain ⟨outs, sources, entries, hneeded, hfound, henough, -, hsources, hchangeDts, hsplit, htx⟩ :=
    buildTransfer_eq_ok.1 h
  rw [hchangeDts] at hsplit
  have hneed : built.neededMoney.toNat = o.fee.toNat + entriesTotal o.dsts ∧
      ∀ de ∈ o.dsts, de.amount ≠ 0 := by
    unfold computeNeededMoney at hneeded
    split at hneeded
    · cases hneeded
    · exact addNeeded_ok hneeded
  obtain ⟨chosen, hsel, hnodup, hmoney, hchosen⟩ := selectTransfers_chosen hfound henough
  have hsel : built.selected = chosen.map Prod.snd := hsel
  obtain ⟨⟨parts, change, hentries, hparts, hchange, htotal⟩, hdust, hpos⟩ :=
    splitDestinations_splits hsplits hfee hsplit
  have htotal : entriesTotal change + built.dust.toNat =
      (makeChange w built.foundMoney built.neededMoney).amount.toNat := htotal
  obtain ⟨hvin, -, hvout⟩ := constructTx_some htx
  have hchangeAmount := makeChange_amount (w := w) henough
  obtain ⟨hsame, hsum⟩ := sources_total (hsel ▸ hsources) fun p hp => by
    obtain ⟨td, htd, -, -, hamount⟩ := hchosen p hp
    exact ⟨td, htd, hamount⟩
  have hin : inputsTotal built.tx.toTransactionPrefix = built.foundMoney.toNat := by
    unfold inputsTotal
    rw [hvin, hsum, hmoney]
  have hout : outsTotal built.tx.toTransactionPrefix =
      entriesTotal o.dsts + entriesTotal change := outs_total hvout hentries hparts
  refine
    { distinct := hnodup
      unspent := ?_
      inputs := hvin.trans (hsel ▸ hsame)
      found := hin
      needed := hneed.1
      outputs := ⟨parts, change, te.shuffle.sort entries, hentries ▸ te.shuffle.perm entries,
        hvout, hparts, ?_, ?_⟩
      dust := hdust
      fee := ?_ }
  · intro i hi
    rw [hsel] at hi
    obtain ⟨p, hp, rfl⟩ := List.mem_map.1 hi
    obtain ⟨td, htd, hspent, hunlocked, -⟩ := hchosen p hp
    exact ⟨td, htd, hspent, hunlocked⟩
  · refine change_own henough hchange htotal fun p hp => ?_
    exact hpos hneed.2 p (by rw [hentries]; exact List.mem_append_right _ hp)
  · omega
  · omega

end DarknetSpace
