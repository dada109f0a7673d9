import DarknetSpace.Core.Core
import DarknetSpace.Format.ExtraBounds

/-!
# Entries put into the extra field

A coinbase's extra field as it is put together entry by entry: the public key,
the user data, an alias, and zeros behind them. The walk reads each of them back
as it went in. What an alias owner signs is the entry without its signature, so
that reading it back says which alias it is about.

The result is for every key, user data and alias that keep to the limits of their fields
(`extraEntries_roundTrip`). That what is signed identifies the alias is its second half:
the bytes to sign hold every field but the signature, so two entries with the same bytes
differ in nothing else.
-/

namespace DarknetSpace

/-- `add_tx_pub_key_to_extra`. -/
def addTxPubKeyToExtra (tx : Transaction) (txPubKey : PublicKey) : Transaction :=
  { tx with extra := tx.extra ++ txExtraTagPubkey :: bytesOfPod 32 txPubKey.toNat }

/-- `add_tx_extra_nonce`; the entry is there for no data at all, too. -/
def addTxExtraNonce (tx : Transaction) (extraNonce : Blob) : Option Transaction :=
  if extraNonce.length ≤ 255 then
    some { tx with
      extra := tx.extra ++ txExtraTagUserData :: UInt8.ofNat extraNonce.length :: extraNonce }
  else none

/-- Zeros at the end of the field, as `create_block_template` puts them there. -/
def zerosBehind (tx : Transaction) (k : Nat) : Transaction :=
  { tx with extra := tx.extra ++ List.replicate k 0 }

/-! ## An alias and its entry -/

/-- What of an alias may go into an entry: every other field may be anything. -/
def AliasInfo.Fits (alinfo : AliasInfo) : Prop :=
  1 ≤ alinfo.mAlias.length ∧ alinfo.mAlias.length ≤ 255 ∧ alinfo.mTextComment.length ≤ 255

theorem makeTxExtraAliasEntry_isSome {alinfo : AliasInfo} (h : alinfo.Fits)
    (makeBuffToSign : Bool) : ∃ entry, makeTxExtraAliasEntry alinfo makeBuffToSign = some entry := by
  obtain ⟨hsome, hname, hcomment⟩ := h
  unfold makeTxExtraAliasEntry
  rw [if_neg (by omega)]
  exact ⟨_, rfl⟩

/-- The entry to sign is that of the alias without a signature. -/
theorem makeTxExtraAliasEntry_toSign (alinfo : AliasInfo) :
    makeTxExtraAliasEntry alinfo true =
      makeTxExtraAliasEntry { alinfo with mSign := nullSig } false := by
  unfold makeTxExtraAliasEntry
  simp only [Bool.not_true, Bool.false_and, ne_eq, not_true_eq_false, decide_false, Bool.and_false,
    Bool.false_eq_true, if_false]

/-- What is signed says which alias it is about, its signature apart. -/
theorem makeTxExtraAliasEntry_toSign_inj {a b : AliasInfo} {buff : Blob}
    (ha : makeTxExtraAliasEntry a true = some buff)
    (hb : makeTxExtraAliasEntry b true = some buff) :
    { a with mSign := nullSig } = { b with mSign := nullSig } := by
  have hwhole : Behind buff 0 (buff ++ []) := ⟨[], (List.append_nil buff).symm, rfl⟩
  rw [makeTxExtraAliasEntry_toSign] at ha hb
  have hreadA := parseTxExtraAliasEntry_made ha hwhole
  have hreadB := parseTxExtraAliasEntry_made hb hwhole
  rw [hreadA] at hreadB
  exact congrArg (fun r => r.2.1) (Except.ok.inj hreadB)

/-! ## The field as a whole -/

/-- From the user data on, which has its entry even where it is empty. -/
theorem extraLoop_userDataEntry {extra data entry : Blob} {w : ExtraWalk} {alinfo : AliasInfo}
    {k fuel : Nat} (hshort : data.length ≤ 255) (halias : AliasEntry alinfo entry)
    (hbehind : Behind extra w.i ((txExtraTagUserData :: UInt8.ofNat data.length :: data) ++
      (entry ++ List.replicate k 0)))
    (hnot : w.paddingStarted = false) (hfirst : w.txExtraUserDataFound = false)
    (hnone : w.info.mUserDataBlob = []) (hunnamed : w.txAliasFound = false)
    (hempty : w.info.mAlias = AliasInfo.empty) (hfuel : k + 3 < fuel) :
    ∃ w', extraLoop extra fuel w = .ok (true, w') ∧
      w'.info = { w.info with mUserDataBlob := data, mAlias := aliasRead alinfo } := by
  have hlen := hbehind.length
  have hskip := hbehind.skip
  rw [List.length_append, List.length_cons, List.length_cons] at hlen
  rw [List.length_cons, List.length_cons, show w.i + (data.length + 1 + 1) =
    w.i + 2 + data.length by omega] at hskip
  obtain ⟨before, hextra, hi⟩ := hbehind
  have hstep := extraStep_userData (hextra.trans (List.append_assoc _ _ _).symm) hi hshort hnot
    hfirst
  -- data of no bytes is not written over the empty one
  have hread : (if UInt8.ofNat data.length ≠ 0 then data else w.info.mUserDataBlob) = data := by
    by_cases hdata : data = []
    · rw [hdata, hnone]
      rfl
    · rw [if_pos]
      intro hzero
      have hback : (UInt8.ofNat data.length).toNat = data.length :=
        UInt8.toNat_ofNat_of_lt' (show _ < 256 by omega)
      rw [hzero] at hback
      exact hdata (List.eq_nil_of_length_eq_zero hback.symm)
  rw [hread] at hstep
  obtain ⟨f, rfl⟩ : ∃ f, fuel = f + 1 := ⟨fuel - 1, by omega⟩
  rw [extraLoop_step (by omega) hstep]
  exact extraLoop_aliasEntry halias hskip hnot hunnamed hempty (by omega)

/-- The public key, the user data and the alias of a coinbase are read back as
they were put in, and two aliases with the same bytes to sign differ in their
signatures at most. -/
theorem extraEntries_roundTrip (env : Env) :
    (∀ (tx : Transaction) (key : PublicKey) (data : Blob) (alinfo : AliasInfo) (k : Nat),
      isCoinbase tx.toTransactionPrefix = true → tx.extra = [] → data.length ≤ 255 → alinfo.Fits →
      ∃ tx₁ tx₂, addTxExtraNonce (addTxPubKeyToExtra tx key) data = some tx₁ ∧
        addTxExtraAlias tx₁ alinfo = some tx₂ ∧
        parseAndValidateTxExtra env (zerosBehind tx₂ k).toTransactionPrefix =
          .ok (true, ⟨key, alinfo, data⟩)) ∧
      ∀ a b buff, makeTxExtraAliasEntry a true = some buff →
        makeTxExtraAliasEntry b true = some buff →
        { a with mSign := nullSig } = { b with mSign := nullSig } := by
  refine ⟨?_, fun a b buff => makeTxExtraAliasEntry_toSign_inj⟩
  intro tx key data alinfo k hgen hextra hdata hfits
  have hne : alinfo.mAlias ≠ [] := by
    rintro hnil
    have hsome := hfits.1
    rw [hnil] at hsome
    cases hsome
  obtain ⟨entry, hentry⟩ := makeTxExtraAliasEntry_isSome hfits false
  have hnonce : addTxExtraNonce (addTxPubKeyToExtra tx key) data = some
      { tx with
        extra := tx.extra ++ txExtraTagPubkey :: bytesOfPod 32 key.toNat ++
          txExtraTagUserData :: UInt8.ofNat data.length :: data } := by
    unfold addTxExtraNonce addTxPubKeyToExtra
    rw [if_pos hdata]
  -- the alias entry is added to a transaction of which only the extra field and the inputs matter
  generalize htx₁ : ({
      tx with
      extra := tx.extra ++ txExtraTagPubkey :: bytesOfPod 32 key.toNat ++
        txExtraTagUserData :: UInt8.ofNat data.length :: data } : Transaction) = tx₁ at hnonce
  have hextra₁ : tx₁.extra = (txExtraTagPubkey :: bytesOfPod 32 key.toNat) ++
      (txExtraTagUserData :: UInt8.ofNat data.length :: data) := by
    rw [← htx₁, hextra]
    rfl
  have hgen₁ : isCoinbase tx₁.toTransactionPrefix = true := by
    rw [← htx₁]
    exact hgen
  have hadded : addTxExtraAlias tx₁ alinfo = some { tx₁ with extra := tx₁.extra ++ entry } := by
    unfold addTxExtraAlias
    rw [if_neg hne, hentry]
    rfl
  refine ⟨tx₁, _, hnonce, hadded, ?_⟩
  have halias : AliasEntry alinfo entry := by
    unfold AliasEntry
    rw [if_neg hne]
    exact hentry
  have hread : aliasRead alinfo = alinfo := by
    unfold aliasRead
    rw [if_neg hne]
  generalize htx : (zerosBehind _ k).toTransactionPrefix = tx'
  have hall : tx'.extra = txExtraTagPubkey :: bytesOfPod 32 key.toNat ++
      ((txExtraTagUserData :: UInt8.ofNat data.length :: data) ++
        (entry ++ List.replicate k 0)) := by
    rw [← htx]
    show tx₁.extra ++ entry ++ List.replicate k 0 = _
    rw [hextra₁, List.append_assoc, List.append_assoc]
  have hgen' : isCoinbase tx' = true := by
    rw [← htx]
    exact hgen₁
  have hkeylen : (txExtraTagPubkey :: bytesOfPod 32 key.toNat).length = 33 := by
    rw [List.length_cons, bytesOfPod_length]
  have hlen : tx'.extra.length = 33 + (data.length + 2 + (entry.length + k)) := by
    rw [hall, List.length_append, hkeylen, List.length_append, List.length_append,
      List.length_replicate]
    rfl
  -- the key is read by the first pass, the rest by the walk behind it
  have hbehind : Behind tx'.extra (ExtraWalk.behindKey key).i
      ((txExtraTagUserData :: UInt8.ofNat data.length :: data) ++
        (entry ++ List.replicate k 0)) := ⟨_, hall, hkeylen.symm⟩
  obtain ⟨w, hw, hinfo⟩ := extraLoop_userDataEntry hdata halias hbehind rfl rfl rfl rfl rfl
    (show k + 3 < 2 * tx'.extra.length + 1 by omega)
  have hloop := extraLoop_pubkey key ((txExtraTagUserData :: UInt8.ofNat data.length :: data) ++
    (entry ++ List.replicate k 0)) (2 * tx'.extra.length + 1)
  rw [← hall, hw] at hloop
  have hcheck : checkMakeAliasTx env tx' w.info = true := by
    unfold checkMakeAliasTx
    rw [if_pos (Or.inl hgen')]
  unfold parseAndValidateTxExtra
  rw [hloop]
  simp only [bind, Except.bind, pure, Except.pure, hcheck]
  rw [hinfo, hread]
  rfl


namespace Devnet

/-- An alias with every field. -/
def fullAlias : AliasInfo where
  mAddress := ⟨3, 4⟩
  mViewKey := 5
  mSign := 6
  mTextComment := [104, 105]
  mAlias := [97, 98, 99]

def bytesToSign : Blob := (makeTxExtraAliasEntry fullAlias true).getD []

end Devnet

theorem extraEntries_roundTrip_devnet :
    (∃ tx₁ tx₂,
      addTxExtraNonce (addTxPubKeyToExtra (Devnet.coinbase 0 1 0 []) 7) [8, 9] = some tx₁ ∧
        addTxExtraAlias tx₁ Devnet.fullAlias = some tx₂ ∧
        parseAndValidateTxExtra Devnet.env (zerosBehind tx₂ 2).toTransactionPrefix =
          .ok (true, ⟨7, Devnet.fullAlias, [8, 9]⟩)) ∧
      { Devnet.fullAlias with mSign := nullSig } =
        { { Devnet.fullAlias with mSign := 1 } with mSign := nullSig } :=
  ⟨(extraEntries_roundTrip Devnet.env).1 (Devnet.coinbase 0 1 0 []) 7 [8, 9] Devnet.fullAlias 2 rfl
      rfl (by decide) (by unfold AliasInfo.Fits; decide),
    (extraEntries_roundTrip Devnet.env).2 Devnet.fullAlias { Devnet.fullAlias with mSign := 1 }
      Devnet.bytesToSign (by decide) (by decide)⟩

end DarknetSpace
