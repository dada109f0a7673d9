import DarknetSpace.Wallet.ExactBuild

/-!
# A transfer pays what was asked

Each step of a transfer has one statement about exact amounts: the digits of an
amount add up to it (`Splits`), what is selected is what was found (`FreeOutputs`),
the sources hold what was selected and the outputs what was split (`ExactBuild`).

Here is the other half: with enough money there is a transaction. Besides the money a
transfer needs outputs whose key images can be made, addresses that keys can be derived
for, and a daemon that has enough to mix with. `TransferEnv.Serves` lists these, and
`TransferEnv.Serves.builds` says that nothing else can go wrong. What is built is then measured, sent and marked: `TransferEnv.Takes`
says of a transaction that it is short enough and that the daemon accepts it.

Main result: `transfer_pays_exactly`. Whatever is built pays exactly, with enough money
something is built, and what is built is returned if it is taken.
-/

namespace DarknetSpace

open StateExn

/-! ## Nothing else can go wrong -/

/-- What a transfer relies on: the outputs the wallet can spend are its own, keys
can be derived for the addresses, and the daemon has other outputs if they are
wanted. -/
structure TransferEnv.Serves (te : TransferEnv) (o : TransferOrder) (w : Wallet2) : Prop where
  own : ∀ td ∈ w.mTransfers, td.mSpent = false → w.isTransferUnlocked te.now td = true →
    ∃ amount key mixAttr txKey image,
      td.mTx.vout[td.mInternalOutputIndex]? = some ⟨amount, .toKey key mixAttr⟩ ∧
      getTxPubKeyFromExtra te.we.env td.mTx = .ok txKey ∧
      te.we.img.generateKeyImageHelper w.mAccount txKey td.mInternalOutputIndex = some (key, image)
  derives : ∀ addr, addr = w.mAccount.keys.mAccountAddress ∨ (∃ de ∈ o.dsts, de.addr = addr) →
    ∀ i, (te.kd.outKey addr te.txkey i).isSome = true
  mixes : o.fakeOutputsCount ≠ 0 → ∀ amounts, ∃ outs,
    te.getRandomOuts amounts (o.fakeOutputsCount + 1) = .response .ok outs ∧
      outs.length = amounts.length ∧ ∀ l ∈ outs, o.fakeOutputsCount ≤ l.length

/-- The parts of a destination go to its address. -/
theorem parts_addr {dsts : List TxDestinationEntry} {parts : List (List TxDestinationEntry)}
    (h : List.Forall₂ (fun de part => (∀ p ∈ part, p.addr = de.addr) ∧
      entriesTotal part = de.amount.toNat) dsts parts) :
    ∀ p ∈ parts.flatten, ∃ de ∈ dsts, de.addr = p.addr := by
  induction h with
  | nil => exact nofun
  | cons hpart _ ih =>
    intro p hp
    rw [List.flatten_cons] at hp
    rcases List.mem_append.1 hp with hp | hp
    · exact ⟨_, List.mem_cons_self, (hpart.1 p hp).symm⟩
    · obtain ⟨de, hde, haddr⟩ := ih p hp
      exact ⟨de, List.mem_cons_of_mem _ hde, haddr⟩

section

variable {te : TransferEnv} {o : TransferOrder} {w : Wallet2}

/-- An output of the wallet's own makes a source, and the source an input. -/
theorem TransferEnv.Serves.input (h : te.Serves o w) {td : TransferDetails}
    (hmem : td ∈ w.mTransfers) (hspent : td.mSpent = false)
    (hunlocked : w.isTransferUnlocked te.now td = true) (outs : List OutEntry) :
    ∃ src, makeSource te.we.env o.fakeOutputsCount td outs = .ok src ∧
      (constructInput te.we.img w.mAccount src).isSome = true := by
  obtain ⟨amount, key, mixAttr, txKey, image, hout, hextra, himage⟩ := h.own td hmem hspent hunlocked
  unfold makeSource
  rw [hout, hextra]
  refine ⟨_, rfl, ?_⟩
  unfold constructInput
  simp only
  rw [List.getElem?_insertIdx_self, if_pos List.findIdx_le_length]
  simp only [himage]
  rw [if_neg (not_not.2 rfl)]
  rfl

/-- With a daemon that serves, the sources can be made. -/
theorem TransferEnv.Serves.sources (h : te.Serves o w) {tds : List TransferDetails}
    (htds : ∀ td ∈ tds, td ∈ w.mTransfers ∧ td.mSpent = false ∧
      w.isTransferUnlocked te.now td = true) (outs : List (List OutEntry)) :
    ∃ sources vin, makeSources te.we.env o.fakeOutputsCount tds outs = .ok sources ∧
      constructInputs te.we.img w.mAccount sources = some vin := by
  induction tds generalizing outs with
  | nil => exact ⟨[], [], rfl, rfl⟩
  | cons td rest ih =>
    obtain ⟨hmem, hspent, hunlocked⟩ := htds td List.mem_cons_self
    obtain ⟨src, hsrc, hinput⟩ := h.input hmem hspent hunlocked (outs.headD [])
    obtain ⟨i, hi⟩ := Option.isSome_iff_exists.1 hinput
    obtain ⟨srcs, is, hsrcs, his⟩ := ih (fun td' htd' => htds td' (List.mem_cons_of_mem _ htd'))
      outs.tail
    refine ⟨src :: srcs, i :: is, ?_, ?_⟩
    · unfold makeSources
      rw [hsrc]
      simp only [bind, Except.bind, hsrcs]
      rfl
    · unfold constructInputs
      rw [hi, his]

/-- It has answered with enough outputs. -/
theorem TransferEnv.Serves.randomOuts (h : te.Serves o w) (tds : List TransferDetails)
    (hout : ∀ td ∈ tds, td.mInternalOutputIndex < td.mTx.vout.length) :
    ∃ outs, askRandomOuts te o.fakeOutputsCount tds = .ok outs := by
  unfold askRandomOuts
  by_cases hnone : o.fakeOutputsCount = 0
  · exact ⟨[], if_pos hnone⟩
  · obtain ⟨outs, hask, hlen, hmany⟩ := h.mixes hnone (tds.map TransferDetails.amount)
    have hin : ¬ (tds.any fun td => decide (td.mTx.vout.length ≤ td.mInternalOutputIndex)) = true := by
      rw [List.any_eq_true]
      rintro ⟨td, htd, hbad⟩
      exact absurd (of_decide_eq_true hbad) (Nat.not_le.2 (hout td htd))
    have hfull : ¬ (outs.any fun l => decide (l.length < o.fakeOutputsCount)) = true := by
      rw [List.any_eq_true]
      rintro ⟨l, hl, hbad⟩
      exact absurd (of_decide_eq_true hbad) (Nat.not_lt.2 (hmany l hl))
    rw [List.length_map] at hlen
    rw [if_neg hnone, if_neg hin, hask]
    simp only [RpcAnswer.check]
    rw [if_neg (not_not.2 hlen), if_neg hfull]
    exact ⟨outs, rfl⟩

/-- With enough to select from a transaction is built. -/
theorem TransferEnv.Serves.builds (h : te.Serves o w)
    (hsplits : ExactStrategy o.destinationSplitStrategy)
    (hdefined : ∀ dsts changeDst, (o.destinationSplitStrategy dsts changeDst
      o.dustPolicy.dustThreshold).isSome = true)
    (hfee : o.dustPolicy.addToFee = true) (hne : o.dsts ≠ [])
    (hpos : ∀ de ∈ o.dsts, de.amount ≠ 0)
    (hfits : o.fee.toNat + entriesTotal o.dsts < 2 ^ 64)
    (henough : o.fee.toNat + entriesTotal o.dsts ≤
      pairsTotal (spendable te.now o.fakeOutputsCount w))
    (htotal : pairsTotal (spendable te.now o.fakeOutputsCount w) < 2 ^ 64) :
    ∃ built, buildTransfer te o w = .ok built := by
  obtain ⟨needed, hadd⟩ := addNeeded_of_fits hpos hfits
  have hneeded : computeNeededMoney o = .ok needed := by
    unfold computeNeededMoney
    rw [if_neg hne]
    exact hadd
  obtain ⟨hneed, -⟩ := addNeeded_ok hadd
  obtain ⟨found, hfound, hle⟩ := selectTransfers_enough (fun td htd hspent hunlocked => by
    obtain ⟨amount, key, mixAttr, -, -, hout, -, -⟩ := h.own td htd hspent hunlocked
    exact ⟨amount, key, mixAttr, hout⟩) (by rw [hneed]; exact henough) htotal
  obtain ⟨chosen, hsel, -, hmoney, hchosen⟩ := selectTransfers_chosen hfound hle
  have htds : ∀ td ∈ found.2.filterMap fun i => w.mTransfers[i]?, td ∈ w.mTransfers ∧
      td.mSpent = false ∧ w.isTransferUnlocked te.now td = true := by
    intro td htd
    rw [hsel] at htd
    obtain ⟨i, hi, hget⟩ := List.mem_filterMap.1 htd
    obtain ⟨p, hp, rfl⟩ := List.mem_map.1 hi
    obtain ⟨td', htd', hspent, hunlocked, -⟩ := hchosen p hp
    rw [hget] at htd'
    cases htd'
    exact ⟨List.mem_of_getElem? hget, hspent, hunlocked⟩
  obtain ⟨outs, houts⟩ := h.randomOuts (found.2.filterMap fun i => w.mTransfers[i]?) (by
    intro td htd
    obtain ⟨hmem, hspent, hunlocked⟩ := htds td htd
    obtain ⟨_, _, _, _, _, hout, -, -⟩ := h.own td hmem hspent hunlocked
    exact (List.getElem?_eq_some_iff.1 hout).1)
  obtain ⟨sources, vin, hsources, hvin⟩ := h.sources htds outs
  obtain ⟨r, hr⟩ := Option.isSome_iff_exists.1 (hdefined o.dsts (makeChange w found.1 needed))
  have hr' := hsplits hr
  have hsplit : splitDestinations o (makeChange w found.1 needed) = .ok r := by
    unfold splitDestinations
    rw [hr]
    obtain ⟨splitted, dust⟩ := r
    simp only
    rw [if_neg (UInt64.not_lt.2 hr'.dust_le), if_neg]
    rintro ⟨-, hkept⟩
    rw [hfee] at hkept
    cases hkept
  obtain ⟨⟨parts, change, hentries, hparts, hchange, hchangeTotal⟩, -, hentryPos⟩ := hr'
  have hperm := te.shuffle.perm r.1
  have hchangeAmount := makeChange_amount (w := w) hle
  have hchangeOwn := change_own hle hchange hchangeTotal fun p hp =>
    hentryPos hpos p (by rw [hentries]; exact List.mem_append_right _ hp)
  obtain ⟨vout, hvout⟩ := constructDestOuts_of_derived te.kd te.txkey 0
    (fun p (hp : p ∈ te.shuffle.sort r.1) => hentryPos hpos p (hperm.subset hp)) (by
      intro p hp i
      have hmem := hperm.subset hp
      rw [hentries] at hmem
      rcases List.mem_append.1 hmem with hmem | hmem
      · exact h.derives _ (.inr (parts_addr hparts p hmem)) i
      · exact h.derives _ (.inl (hchangeOwn p hmem)) i)
  -- the outputs do not come to more than the inputs
  obtain ⟨-, hin⟩ := sources_total (hsel ▸ hsources) fun p hp => by
    obtain ⟨td, htd, -, -, hamount⟩ := hchosen p hp
    exact ⟨td, htd, hamount⟩
  have hout := outs_total (constructDestOuts_paidOut hvout) hentries hparts
  have hfoundLt := found.1.toNat_lt
  have hsumIn : (sumAmounts (sources.map (·.amount))).toNat = found.1.toNat := by
    rw [toNat_sumAmounts]
    · rw [List.map_map, hmoney, ← hin]
      rfl
    · rw [List.map_map]
      show (sources.map (·.amount.toNat)).sum < 2 ^ 64
      omega
  have hsumOut : (sumAmounts (vout.map (·.amount))).toNat =
      entriesTotal o.dsts + entriesTotal change := by
    rw [toNat_sumAmounts]
    · rw [List.map_map, ← hout]
      rfl
    · rw [List.map_map]
      show (vout.map (·.amount.toNat)).sum < 2 ^ 64
      omega
  have hmoneyOk : ¬ sumAmounts (sources.map (·.amount)) < sumAmounts (vout.map (·.amount)) := by
    rw [UInt64.lt_iff_toNat_lt, hsumIn, hsumOut]
    omega
  unfold buildTransfer
  rw [hneeded]
  simp only [bind, Except.bind, hfound]
  rw [if_neg (UInt64.not_lt.2 hle)]
  simp only [houts, hsources, hsplit]
  unfold constructTx
  rw [hvin, hvout]
  simp only
  rw [if_neg hmoneyOk]
  exact ⟨_, rfl⟩

end

/-! ## Paying -/

/-- A transfer that returned had built its transaction. -/
theorem transfer_built {te : TransferEnv} {o : TransferOrder} {w w' : Wallet2} {tx : Transaction}
    (h : transfer te o w = .ok tx w') :
    ∃ built, buildTransfer te o w = .ok built ∧ built.tx = tx ∧
      w' = (w.addSentUnconfirmedTx te tx built.changeDts.amount
        (recipientStr te o.dsts)).spendSelected built.selected := by
  unfold transfer at h
  obtain ⟨built, v, hread, hsend⟩ := bind_eq_ok.1 h
  obtain ⟨hbuilt, rfl⟩ := reads_eq_ok hread
  obtain ⟨_, u, hsent, hwrite⟩ := bind_eq_ok.1 hsend
  obtain ⟨-, rfl⟩ := reads_eq_ok hsent
  cases hwrite
  exact ⟨built, hbuilt, rfl, rfl⟩

/-- The daemon is there and takes the transaction, which is within the size limit. -/
structure TransferEnv.Takes (te : TransferEnv) (w : Wallet2) (tx : Transaction) : Prop where
  connected : te.checkConnection = true
  median : ∃ median, te.getInfo = .response .ok median ∧
    getBlockGrantedFullRewardZone w.mLocalBcHeight.toNat ≤ median
  small : getObjectBlobsize te.we.env tx.toTransactionPrefix <
    getMaxTransactionBlobSize w.mLocalBcHeight.toNat
  accepted : te.sendRawTransaction (txToBlob tx) = .response .ok ()

/-- A transaction with inputs from keys goes out to a daemon that takes it. -/
theorem TransferEnv.Takes.sendBuilt {te : TransferEnv} {w : Wallet2} {tx : Transaction}
    (h : te.Takes w tx) (hvin : ∀ i ∈ tx.vin, (inputImage? i).isSome = true) :
    sendBuilt te tx w = .ok () := by
  obtain ⟨median, hinfo, hmedian⟩ := h.median
  have hkeys : ¬ (tx.vin.any fun i => (inputImage? i).isNone) = true := by
    rw [List.any_eq_true]
    rintro ⟨i, hi, hnone⟩
    rw [Option.isNone_iff_eq_none] at hnone
    have hsome := hvin i hi
    rw [hnone] at hsome
    cases hsome
  have hconnected : ¬ te.checkConnection = false := by
    rw [h.connected]
    exact Bool.noConfusion
  have hchecked : te.getInfo.check "getinfo" .getBlocks = .ok median := by
    rw [hinfo]
    rfl
  unfold DarknetSpace.sendBuilt
  rw [if_neg hconnected, hchecked]
  simp only
  rw [if_neg (Nat.not_lt.2 hmedian), if_neg (Nat.not_le.2 h.small), if_neg hkeys, h.accepted]
  rfl

/-- A transaction that was built, and that the daemon takes, is returned. -/
theorem TransferEnv.Takes.transfer {te : TransferEnv} {o : TransferOrder} {w : Wallet2}
    {built : BuiltTransfer} (h : te.Takes w built.tx) (hbuilt : buildTransfer te o w = .ok built) :
    ∃ w', transfer te o w = .ok built.tx w' := by
  obtain ⟨_, _, _, -, -, -, -, -, -, -, htx⟩ := buildTransfer_eq_ok.1 hbuilt
  have hsent := h.sendBuilt (constructTx_some htx).2.1
  unfold DarknetSpace.transfer
  rw [bind_of_ok (reads_of_ok hbuilt), bind_of_ok (reads_of_ok hsent)]
  exact ⟨_, rfl⟩

/-- Either strategy takes amounts apart exactly, and has a value under the
threshold every policy has. -/
theorem strategy_exact {strategy : SplitStrategy}
    (h : strategy = digitSplitStrategy ∨ strategy = nullSplitStrategy) :
    ExactStrategy strategy ∧
      ∀ dsts changeDst, (strategy dsts changeDst defaultFee).isSome = true := by
  rcases h with rfl | rfl
  · exact ⟨digitSplitStrategy_splits, fun _ _ => rfl⟩
  · refine ⟨nullSplitStrategy_splits, ?_⟩
    intro dsts changeDst
    have hends : (nullSplitLoop changeDst.amount defaultFee 65 10 0 changeDst.amount).isSome = true :=
      nullSplitLoop_ends (by decide) (by decide) (by decide) (by decide)
    unfold nullSplitStrategy
    rw [if_pos (by decide), Option.isSome_map]
    exact hends

/-- The wallet pays exactly what was asked: a transaction that goes out is one
that was built, one that was built goes out if the daemon takes it, it is exact,
and with enough to select from one is built. -/
theorem transfer_pays_exactly (te : TransferEnv) (o : TransferOrder) (w : Wallet2)
    (aDustThreshold : UInt64) (addrForDust : AccountPublicAddress)
    (hpolicy : o.dustPolicy = txDustPolicy aDustThreshold true addrForDust)
    (hstrategy : o.destinationSplitStrategy = digitSplitStrategy ∨
      o.destinationSplitStrategy = nullSplitStrategy) :
    (∀ tx w', transfer te o w = .ok tx w' →
      ∃ built, buildTransfer te o w = .ok built ∧ built.tx = tx) ∧
    (∀ built, buildTransfer te o w = .ok built → te.Takes w built.tx →
      ∃ w', transfer te o w = .ok built.tx w') ∧
    (∀ built, buildTransfer te o w = .ok built → PaysExactly te o w built) ∧
    (o.dsts ≠ [] → (∀ de ∈ o.dsts, de.amount ≠ 0) →
      o.fee.toNat + entriesTotal o.dsts < 2 ^ 64 →
      o.fee.toNat + entriesTotal o.dsts ≤ pairsTotal (spendable te.now o.fakeOutputsCount w) →
      pairsTotal (spendable te.now o.fakeOutputsCount w) < 2 ^ 64 → te.Serves o w →
      ∃ built, buildTransfer te o w = .ok built) := by
  obtain ⟨hexact, hdefined⟩ := strategy_exact hstrategy
  have hfee : o.dustPolicy.addToFee = true := by rw [hpolicy]; rfl
  have hthreshold : o.dustPolicy.dustThreshold = defaultFee := by rw [hpolicy]; rfl
  refine ⟨?_, ?_, ?_, ?_⟩
  · intro tx w' h
    obtain ⟨built, hbuilt, htx, -⟩ := transfer_built h
    exact ⟨built, hbuilt, htx⟩
  · intro built hbuilt htakes
    exact htakes.transfer hbuilt
  · intro built h
    exact buildTransfer_pays hexact hfee h
  · intro hne hpos hfits henough htotal hserves
    exact hserves.builds hexact (by rw [hthreshold]; exact hdefined) hfee hne hpos hfits henough
      htotal

namespace Devnet

/-- The payment under the transaction key 1, and a purse that has it unlocked. -/
def payment : TransferDetails where
  mBlockHeight := 1
  mTx := transferTx 7 1 0 [toPurse 1]
  mInternalOutputIndex := 0
  mGlobalOutputIndex := 0
  mSpent := false
  mKeyImage := oneTimeKey purse.keys.mAccountAddress 1 0

/-- The sample wallet with money. -/
def savedPurse : Wallet2 :=
  { newPurse with
    mBlockchain := (List.range 12).map fun k => BitVec.ofNat 256 (k + 1)
    mLocalBcHeight := 12
    mTransfers := [payment]
    mKeyImages := (∅ : Map KeyImage Nat).insert payment.mKeyImage 0 }

/-- One order of destinations. -/
def byAmount (a b : TxDestinationEntry) : Prop := a.amount ≤ b.amount

instance : DecidableRel byAmount := fun a b => inferInstanceAs (Decidable (a.amount ≤ b.amount))

instance : Std.Total byAmount := ⟨fun a b => UInt64.le_total a.amount b.amount⟩

instance : IsTrans TxDestinationEntry byAmount := ⟨fun _ _ _ => UInt64.le_trans⟩

/-- A stable sort by amount. -/
def stableSort : AmountSort where
  sort l := l.insertionSort byAmount
  perm l := l.perm_insertionSort byAmount
  sorted l := l.pairwise_insertionSort byAmount

/-- A daemon that takes every transaction. -/
def transferEnv : TransferEnv where
  we := walletEnv answering
  kd := ⟨id, fun addr sec i => some (oneTimeKey addr sec i)⟩
  txkey := 2
  now := now
  shuffle := stableSort
  generateRingSignature _ _ src := src.outputs.map fun _ => nullSig
  getRandomOuts _ _ := .none
  checkConnection := true
  getInfo := .response .ok currencyBlockGrantedFullRewardZoneEnlarge
  sendRawTransaction _ := .response .ok ()
  accountAddressAsStr _ := []
  aliasForAddress _ := []

/-- Whoever is paid. -/
def stranger : AccountPublicAddress := ⟨8, 9⟩

/-- So much to a stranger, in digits, for the usual fee. -/
def order (amount : UInt64) : TransferOrder where
  dsts := [⟨amount, stranger⟩]
  fakeOutputsCount := 0
  unlockTime := 0
  fee := defaultFee
  extra := []
  destinationSplitStrategy := digitSplitStrategy
  dustPolicy := txDustPolicy 0 true ⟨0, 0⟩

/-- The sample daemon serves. -/
theorem transferEnv_serves (amount : UInt64) : transferEnv.Serves (order amount) savedPurse where
  own := by
    intro td htd _ _
    cases List.mem_singleton.1 htd
    exact ⟨unit, _, 0, 1, _, rfl, by decide +kernel, rfl⟩
  derives _ _ _ := rfl
  mixes h := absurd rfl h

end Devnet

/-- A hundred and thirty coins and a bit out of two hundred. -/
theorem transfer_pays_exactly_devnet :
    ∃ built, buildTransfer Devnet.transferEnv (Devnet.order 1300000000005) Devnet.savedPurse =
        .ok built ∧
      PaysExactly Devnet.transferEnv (Devnet.order 1300000000005) Devnet.savedPurse built := by
  have eval :
      defaultFee.toNat + entriesTotal (Devnet.order 1300000000005).dsts ≤
        pairsTotal (spendable Devnet.transferEnv.now 0 Devnet.savedPurse) ∧
      pairsTotal (spendable Devnet.transferEnv.now 0 Devnet.savedPurse) < 2 ^ 64 := by
    decide +kernel
  obtain ⟨-, -, hexact, hbuilds⟩ := transfer_pays_exactly Devnet.transferEnv
    (Devnet.order 1300000000005) Devnet.savedPurse 0 ⟨0, 0⟩ rfl (.inl rfl)
  obtain ⟨built, hbuilt⟩ := hbuilds (List.cons_ne_nil _ _) (by decide) (by decide) eval.1 eval.2
    (Devnet.transferEnv_serves _)
  exact ⟨built, hbuilt, hexact built hbuilt⟩

end DarknetSpace
