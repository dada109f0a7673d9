import DarknetSpace.Format.MinerTx

/-!
# An alias in a coinbase (`make_tx_extra_alias_entry`)

A coinbase may register an alias. Its entry goes into the extra field behind the
public key and the nonce, and is read back by `parse_tx_extra_alias_entry`; the
zeros a template is padded with come behind all of them.

The entry has a byte of flags that say what follows: a view key for tracking, a
signature for an update. Reading it back is done field by field along the entry, each
reader knowing what is in front of it by `Behind`; the comment and the signature are at
the end in either form (`readAliasTail_made`), so the two forms part only at the view
key.

Main results: `parseTxExtraAliasEntry_made`, that an entry that was made is read as the
alias it was made from, and `parse_coinbaseExtra`, the same for the extra field of a
coinbase as a whole, with padding behind.
-/

namespace DarknetSpace

/-- The flags of an entry: whether it has a tracking key, and a signature. -/
def aliasFlags (withTrack signed : Bool) : UInt8 :=
  (if withTrack then txExtraTagAliasFlagsAddrWithTrack else 0) |||
    (if signed then txExtraTagAliasFlagsOpUpdate else 0)

theorem aliasFlags_track (withTrack signed : Bool) :
    aliasFlags withTrack signed &&& txExtraTagAliasFlagsAddrWithTrack ≠ 0 ↔ withTrack = true := by
  cases withTrack <;> cases signed <;> decide

theorem aliasFlags_update (withTrack signed : Bool) :
    aliasFlags withTrack signed &&& txExtraTagAliasFlagsOpUpdate ≠ 0 ↔ signed = true := by
  cases withTrack <;> cases signed <;> decide

/-- `make_tx_extra_alias_entry`; nothing where it returns `false`. -/
def makeTxExtraAliasEntry (alinfo : AliasInfo) (makeBuffToSign : Bool) : Option Blob :=
  if alinfo.mAlias.length = 0 ∨ 255 < alinfo.mAlias.length ∨ 255 < alinfo.mTextComment.length then
    none
  else
    let withTrack := decide (alinfo.mViewKey ≠ 0)
    let signed := !makeBuffToSign && decide (alinfo.mSign ≠ nullSig)
    some ([txExtraTagAlias, aliasFlags withTrack signed, UInt8.ofNat alinfo.mAlias.length]
      ++ alinfo.mAlias
      ++ bytesOfPod 32 alinfo.mAddress.mSpendPublicKey.toNat
      ++ bytesOfPod 32 alinfo.mAddress.mViewPublicKey.toNat
      ++ (if withTrack then bytesOfPod 32 alinfo.mViewKey.toNat else [])
      ++ [UInt8.ofNat alinfo.mTextComment.length]
      ++ alinfo.mTextComment
      ++ (if signed then bytesOfPod 64 alinfo.mSign.toNat else []))

/-- What is signed is the entry without its signature. -/
theorem makeTxExtraAliasEntryToSign_eq (alinfo : AliasInfo) :
    makeTxExtraAliasEntryToSign alinfo = (makeTxExtraAliasEntry alinfo true).getD [] := by
  unfold makeTxExtraAliasEntryToSign makeTxExtraAliasEntry
  split
  · rfl
  · simp only [Bool.not_true, Bool.false_and, Option.getD_some]
    by_cases htrack : alinfo.mViewKey = 0
    · simp [htrack, aliasFlags]
    · simp [aliasFlags]

/-- `if(alias.m_alias.size())` and `add_tx_extra_alias`. -/
def addTxExtraAlias (tx : Transaction) (alinfo : AliasInfo) : Option Transaction :=
  if alinfo.mAlias = [] then some tx
  else (makeTxExtraAliasEntry alinfo false).map fun buff => { tx with extra := tx.extra ++ buff }

/-! ## Reading the entry -/

/-- From `i` on the field is `tail`. -/
def Behind (extra : Blob) (i : Nat) (tail : Blob) : Prop :=
  ∃ before, extra = before ++ tail ∧ i = before.length

section

variable {extra tail : Blob} {i : Nat}

theorem Behind.skip {data : Blob} (h : Behind extra i (data ++ tail)) :
    Behind extra (i + data.length) tail := by
  obtain ⟨before, hextra, hi⟩ := h
  refine ⟨before ++ data, ?_, ?_⟩
  · rw [hextra, List.append_assoc]
  · rw [List.length_append, hi]

theorem Behind.byte {b : UInt8} (h : Behind extra i (b :: tail)) : byteAt extra i = .ok b := by
  obtain ⟨before, hextra, hi⟩ := h
  refine byteAt_of_getElem? ?_
  rw [hextra, hi, List.getElem?_append_right (Nat.le_refl _), Nat.sub_self]
  rfl

theorem Behind.bytes {data : Blob} (h : Behind extra i (data ++ tail)) :
    bytesAt extra i data.length = .ok data := by
  obtain ⟨before, hextra, hi⟩ := h
  rw [← List.append_assoc] at hextra
  exact bytesAt_middle hextra hi

theorem Behind.pod {n : Nat} (v : BitVec (8 * n)) (h : Behind extra i (bytesOfPod n v.toNat ++ tail)) :
    podAt n extra i = .ok v := by
  obtain ⟨before, hextra, hi⟩ := h
  rw [← List.append_assoc] at hextra
  exact podAt_middle v hextra hi

theorem Behind.length (h : Behind extra i tail) : extra.length = i + tail.length := by
  obtain ⟨before, hextra, hi⟩ := h
  rw [hextra, hi, List.length_append]

end

/-- The reads from the comment's counter on, as they stand in
`parse_tx_extra_alias_entry`. -/
def readAliasTail (extra : Blob) (start i : Nat) (flags : UInt8) (alinfo : AliasInfo) :
    Except Exn (Bool × AliasInfo × Nat) := do
  let commentLen ← byteAt extra i
  if commentLen ≠ 0 ∧ extra.length - i < commentLen.toNat then return (false, alinfo, 0)
  let comment ← bytesAt extra (i + 1) commentLen.toNat
  let alinfo :=
    if commentLen ≠ 0 then { alinfo with mTextComment := comment } else alinfo
  let i := i + commentLen.toNat + 1
  let opUpdate := flags &&& txExtraTagAliasFlagsOpUpdate ≠ 0
  if opUpdate ∧ extra.length - i < 32 then return (false, alinfo, 0)
  let sign ← if opUpdate then podAt 64 extra i else pure alinfo.mSign
  let alinfo := { alinfo with mSign := sign }
  let i := if opUpdate then i + 64 else i
  return (true, alinfo, i - start)

/-- Comment and signature are read back as they were written. -/
theorem readAliasTail_made {extra comment rest : Blob} {start i : Nat} {flags : UInt8}
    {sign : Signature} (hcomment : comment.length < 256)
    (hflags : flags &&& txExtraTagAliasFlagsOpUpdate ≠ 0 ↔ sign ≠ nullSig)
    (htail : Behind extra i ([UInt8.ofNat comment.length] ++ (comment ++
      ((if sign ≠ nullSig then bytesOfPod 64 sign.toNat else []) ++ rest))))
    (address : AccountPublicAddress) (viewKey : SecretKey) (name : Blob) :
    readAliasTail extra start i flags ⟨⟨address, viewKey, nullSig, []⟩, name⟩ =
      .ok (true, ⟨⟨address, viewKey, sign, comment⟩, name⟩,
        i + comment.length + 1 + (if sign ≠ nullSig then 64 else 0) - start) := by
  have hlen : (UInt8.ofNat comment.length).toNat = comment.length :=
    UInt8.toNat_ofNat_of_lt' (show _ < 256 from hcomment)
  have htext := htail.skip
  rw [List.length_singleton] at htext
  have hsign := htext.skip
  have htotal := htail.length
  simp only [List.length_append, List.length_singleton] at htotal
  unfold readAliasTail
  rw [htail.byte]
  simp only [bind, Except.bind, pure, Except.pure, hlen]
  rw [if_neg (by omega), htext.bytes]
  simp only
  -- a comment of no bytes is not written over the empty one
  have hread : (if UInt8.ofNat comment.length ≠ 0 then
      (⟨⟨address, viewKey, nullSig, comment⟩, name⟩ : AliasInfo)
      else ⟨⟨address, viewKey, nullSig, []⟩, name⟩) =
        ⟨⟨address, viewKey, nullSig, comment⟩, name⟩ := by
    by_cases hnone : comment = []
    · rw [hnone]
      rfl
    · rw [if_pos]
      intro hbyte
      rw [hbyte] at hlen
      exact hnone (List.eq_nil_of_length_eq_zero hlen.symm)
  rw [hread]
  by_cases hnull : sign = nullSig
  · have hupdate : ¬ flags &&& txExtraTagAliasFlagsOpUpdate ≠ 0 := fun h => hflags.1 h hnull
    rw [if_neg fun h => hupdate h.1]
    simp only [if_neg hupdate]
    rw [hnull, if_neg fun h => h rfl]
  · have hupdate := hflags.2 hnull
    rw [if_pos hnull] at hsign htotal ⊢
    rw [bytesOfPod_length] at htotal
    rw [show i + 1 + comment.length = i + comment.length + 1 by omega] at hsign
    rw [if_neg fun h => absurd h.2 (by omega)]
    simp only [if_pos hupdate]
    rw [hsign.pod sign]

/-- An entry in the middle of the field is read back as the alias it was made of. -/
theorem parseTxExtraAliasEntry_made {extra entry rest : Blob} {start : Nat} {alinfo : AliasInfo}
    (hmade : makeTxExtraAliasEntry alinfo false = some entry)
    (hentry : Behind extra start (entry ++ rest)) :
    parseTxExtraAliasEntry extra start AliasInfo.empty = .ok (true, alinfo, entry.length) := by
  obtain ⟨⟨⟨spendKey, viewKey⟩, tracking, sign, comment⟩, name⟩ := alinfo
  unfold makeTxExtraAliasEntry at hmade
  simp only at hmade
  split at hmade
  · cases hmade
  · next hsizes =>
    rw [not_or, not_or] at hsizes
    obtain ⟨-, hname, hcomment⟩ := hsizes
    have hnameLen : (UInt8.ofNat name.length).toNat = name.length :=
      UInt8.toNat_ofNat_of_lt' (show _ < 256 by omega)
    have hspend := bytesOfPod_length 32 spendKey.toNat
    have hview := bytesOfPod_length 32 viewKey.toNat
    rw [Bool.not_false, Bool.true_and] at hmade
    generalize hflags : aliasFlags (decide (tracking ≠ 0)) (decide (sign ≠ nullSig)) = flags at hmade
    generalize htrack : (if decide (tracking ≠ 0) = true then bytesOfPod 32 tracking.toNat else []) =
      track at hmade
    generalize hsigned : (if decide (sign ≠ nullSig) = true then bytesOfPod 64 sign.toNat else []) =
      signed at hmade
    have hlist := Option.some.inj hmade
    have hlen : entry.length = 3 + name.length + 64 + track.length + 1 + comment.length +
        signed.length := by
      rw [← hlist]
      simp [hspend, hview]
      omega
    have htotal := hentry.length
    rw [List.length_append] at htotal
    -- the parts of the entry, each behind the ones before it
    have h₀ : Behind extra start ([txExtraTagAlias] ++ ([flags] ++ ([UInt8.ofNat name.length] ++
        (name ++ (bytesOfPod 32 spendKey.toNat ++ (bytesOfPod 32 viewKey.toNat ++ (track ++
          ([UInt8.ofNat comment.length] ++ (comment ++ (signed ++ rest)))))))))) := by
      rw [← hlist] at hentry
      simpa only [List.append_assoc, List.cons_append, List.nil_append] using hentry
    have h₁ := h₀.skip
    have h₂ := h₁.skip
    have h₃ := h₂.skip
    have h₄ := h₃.skip
    have h₅ := h₄.skip
    have h₆ := h₅.skip
    have h₇ := h₆.skip
    simp only [List.length_singleton, hspend, hview] at h₁ h₂ h₃ h₄ h₅ h₆ h₇
    unfold parseTxExtraAliasEntry
    rw [if_neg (by omega), h₁.byte]
    simp only [bind, Except.bind, pure, Except.pure]
    rw [h₂.byte]
    simp only [hnameLen]
    rw [if_neg (by omega), h₃.bytes]
    simp only
    rw [h₄.pod spendKey]
    simp only
    rw [h₅.pod viewKey]
    simp only
    rw [← hflags]
    have hupdate : aliasFlags (decide (tracking ≠ 0)) (decide (sign ≠ nullSig)) &&&
        txExtraTagAliasFlagsOpUpdate ≠ 0 ↔ sign ≠ nullSig := by
      rw [aliasFlags_update, decide_eq_true_iff]
    -- what is left behind the keys is read by `readAliasTail`
    have hrest := fun viewKey' {i : Nat} htail =>
      @readAliasTail_made extra comment rest start i _ _ (show comment.length < 256 by omega)
        hupdate htail ⟨spendKey, viewKey⟩ viewKey' name
    simp only [decide_eq_true_eq] at hsigned
    rw [← hsigned] at h₇
    have hwith : aliasFlags (decide (tracking ≠ 0)) (decide (sign ≠ nullSig)) &&&
        txExtraTagAliasFlagsAddrWithTrack ≠ 0 ↔ tracking ≠ 0 := by
      rw [aliasFlags_track, decide_eq_true_iff]
    have hsize : signed.length = if sign ≠ nullSig then 64 else 0 := by
      rw [← hsigned]
      split
      · exact bytesOfPod_length 64 _
      · rfl
    by_cases hzero : tracking = 0
    · have hno : ¬ aliasFlags (decide (tracking ≠ 0)) (decide (sign ≠ nullSig)) &&&
          txExtraTagAliasFlagsAddrWithTrack ≠ 0 := fun h => hwith.1 h hzero
      rw [hzero, if_neg (by decide)] at htrack
      subst htrack
      rw [List.length_nil] at hlen h₇
      rw [if_neg fun h => hno h.1]
      simp only [if_neg hno]
      refine (hrest 0 (i := start + 3 + name.length + 64) ?_).trans ?_
      · rw [show start + 3 + name.length + 64 = start + 1 + 1 + 1 + name.length + 32 + 32 + 0 by omega]
        exact h₇
      · rw [← hsize, show start + 3 + name.length + 64 + comment.length + 1 + signed.length - start =
          entry.length by omega, hzero]
    · have hyes := hwith.2 hzero
      rw [if_pos (decide_eq_true hzero)] at htrack
      subst htrack
      rw [bytesOfPod_length] at hlen h₇
      rw [if_neg fun h => absurd h.2 (by omega)]
      simp only [if_pos hyes]
      rw [show start + 3 + name.length + 64 = start + 1 + 1 + 1 + name.length + 32 + 32 by omega,
        h₆.pod tracking]
      refine (hrest tracking h₇).trans ?_
      rw [← hsize, show start + 1 + 1 + 1 + name.length + 32 + 32 + 32 + comment.length + 1 +
        signed.length - start = entry.length by omega]

theorem Behind.zeros {extra : Blob} {i k : Nat} (h : Behind extra i (List.replicate k 0)) :
    ∀ j, i ≤ j → j < extra.length → extra[j]? = some 0 := by
  obtain ⟨before, hextra, hi⟩ := h
  intro j hj hlt
  rw [hextra] at hlt ⊢
  exact getElem?_zeros (hi ▸ hj) hlt

/-! ## The walk over a coinbase's extra field -/

/-- The user data of a coinbase: no entry at all for an empty nonce. -/
def nonceField (extraNonce : Blob) : Blob :=
  if extraNonce = [] then []
  else txExtraTagUserData :: UInt8.ofNat extraNonce.length :: extraNonce

theorem minerExtra_eq_some {kd : KeyDerivation} {txkey : SecretKey} {extraNonce extra : Blob} :
    minerExtra kd txkey extraNonce = some extra ↔
      extraNonce.length ≤ 255 ∧
        extra = txExtraTagPubkey :: bytesOfPod 32 (kd.pub txkey).toNat ++ nonceField extraNonce := by
  unfold minerExtra nonceField
  by_cases hempty : extraNonce = []
  · rw [hempty]
    simp [eq_comm]
  · by_cases hlen : extraNonce.length ≤ 255
    · simp [hempty, hlen, eq_comm]
    · simp [hempty, hlen]

/-- The entry of an alias: nothing where there is none. -/
def AliasEntry (alinfo : AliasInfo) (entry : Blob) : Prop :=
  if alinfo.mAlias = [] then entry = [] else makeTxExtraAliasEntry alinfo false = some entry

/-- What is read of it. -/
def aliasRead (alinfo : AliasInfo) : AliasInfo :=
  if alinfo.mAlias = [] then AliasInfo.empty else alinfo

section

variable {extra entry rest : Blob} {w : ExtraWalk} {alinfo : AliasInfo}

theorem extraLoop_step {w' : ExtraWalk} (hmore : w.i ≠ extra.length)
    (hstep : extraStep extra w = .ok (true, w')) (fuel : Nat) :
    extraLoop extra (fuel + 1) w = extraLoop extra fuel w' := by
  conv => lhs; unfold extraLoop
  rw [if_neg hmore, hstep]

theorem makeTxExtraAliasEntry_head {makeBuffToSign : Bool}
    (hmade : makeTxExtraAliasEntry alinfo makeBuffToSign = some entry) :
    ∃ fields, entry = txExtraTagAlias :: fields := by
  unfold makeTxExtraAliasEntry at hmade
  split at hmade
  · cases hmade
  · cases hmade
    exact ⟨_, rfl⟩

theorem extraStep_alias (hmade : makeTxExtraAliasEntry alinfo false = some entry)
    (hentry : Behind extra w.i (entry ++ rest)) (hnot : w.paddingStarted = false)
    (hfirst : w.txAliasFound = false) (hempty : w.info.mAlias = AliasInfo.empty) :
    extraStep extra w = .ok (true, { w with
      i := w.i + entry.length
      txAliasFound := true
      info := { w.info with mAlias := alinfo } }) := by
  have hread := parseTxExtraAliasEntry_made hmade hentry
  obtain ⟨fields, hfields⟩ := makeTxExtraAliasEntry_head hmade
  have htag : byteAt extra w.i = .ok txExtraTagAlias := by
    rw [hfields] at hentry
    exact hentry.byte
  unfold extraStep
  rw [htag]
  simp only [bind, Except.bind, pure, Except.pure]
  rw [if_neg (show ¬w.paddingStarted = true by rw [hnot]; exact Bool.false_ne_true),
    if_neg (show ¬txExtraTagAlias = txExtraTagPubkey by decide),
    if_neg (show ¬txExtraTagAlias = txExtraTagUserData by decide), if_pos trivial,
    if_neg (show ¬w.txAliasFound = true by rw [hfirst]; exact Bool.false_ne_true), hempty, hread]
  rfl

/-- From the alias on: the entry, if there is one, and the zeros behind it. -/
theorem extraLoop_aliasEntry {k fuel : Nat} (halias : AliasEntry alinfo entry)
    (hbehind : Behind extra w.i (entry ++ List.replicate k 0)) (hnot : w.paddingStarted = false)
    (hfirst : w.txAliasFound = false) (hempty : w.info.mAlias = AliasInfo.empty)
    (hfuel : k + 2 < fuel) :
    ∃ w', extraLoop extra fuel w = .ok (true, w') ∧
      w'.info = { w.info with mAlias := aliasRead alinfo } := by
  have hlen := hbehind.length
  rw [List.length_append, List.length_replicate] at hlen
  unfold AliasEntry at halias
  unfold aliasRead
  by_cases hname : alinfo.mAlias = []
  · rw [if_pos hname] at halias ⊢
    rw [halias, List.nil_append] at hbehind
    rw [halias, List.length_nil] at hlen
    obtain ⟨w', hw', hinfo⟩ := extraLoop_zeros hbehind.zeros (by omega) hnot
      (show extra.length + 1 < w.i + fuel by omega)
    exact ⟨w', hw', by rw [hinfo, ← hempty]⟩
  · rw [if_neg hname] at halias ⊢
    obtain ⟨fields, hfields⟩ := makeTxExtraAliasEntry_head halias
    have hpos : 1 ≤ entry.length := by
      rw [hfields, List.length_cons]
      omega
    obtain ⟨f, rfl⟩ : ∃ f, fuel = f + 1 := ⟨fuel - 1, by omega⟩
    rw [extraLoop_step (by omega) (extraStep_alias halias hbehind hnot hfirst hempty)]
    generalize hstepped : ({ w with
      i := w.i + entry.length
      txAliasFound := true
      info := { w.info with mAlias := alinfo } } : ExtraWalk) = v
    have hi : v.i = w.i + entry.length := by rw [← hstepped]
    have hv : Behind extra v.i (List.replicate k 0) := hi ▸ hbehind.skip
    obtain ⟨w', hw', hinfo⟩ := extraLoop_zeros hv.zeros (by omega) (by rw [← hstepped]; exact hnot)
      (show extra.length + 1 < v.i + f by omega)
    exact ⟨w', hw', by rw [hinfo, ← hstepped]⟩

/-- From the user data on. -/
theorem extraLoop_nonceField {nonce : Blob} {k fuel : Nat} (hshort : nonce.length ≤ 255)
    (halias : AliasEntry alinfo entry)
    (hbehind : Behind extra w.i (nonceField nonce ++ (entry ++ List.replicate k 0)))
    (hnot : w.paddingStarted = false) (hdata : w.txExtraUserDataFound = false)
    (hnone : w.info.mUserDataBlob = []) (hfirst : w.txAliasFound = false)
    (hempty : w.info.mAlias = AliasInfo.empty) (hfuel : k + 3 < fuel) :
    ∃ w', extraLoop extra fuel w = .ok (true, w') ∧
      w'.info = { w.info with mUserDataBlob := nonce, mAlias := aliasRead alinfo } := by
  unfold nonceField at hbehind
  by_cases hnonce : nonce = []
  · rw [if_pos hnonce, List.nil_append] at hbehind
    obtain ⟨w', hw', hinfo⟩ := extraLoop_aliasEntry halias hbehind hnot hfirst hempty
      (show k + 2 < fuel by omega)
    exact ⟨w', hw', by rw [hinfo, hnonce, ← hnone]⟩
  · rw [if_neg hnonce] at hbehind
    have hlen := hbehind.length
    rw [List.length_append, List.length_cons, List.length_cons] at hlen
    have hbyte : UInt8.ofNat nonce.length ≠ 0 := by
      intro hzero
      have hback : (UInt8.ofNat nonce.length).toNat = nonce.length :=
        UInt8.toNat_ofNat_of_lt' (show _ < 256 by omega)
      rw [hzero] at hback
      exact hnonce (List.eq_nil_of_length_eq_zero hback.symm)
    obtain ⟨before, hextra, hi⟩ := hbehind
    have hstep := extraStep_userData (hextra.trans (List.append_assoc _ _ _).symm) hi hshort hnot
      hdata
    rw [if_pos hbyte] at hstep
    have hskip : Behind extra (w.i + 2 + nonce.length) (entry ++ List.replicate k 0) := by
      have := Behind.skip ⟨before, hextra, hi⟩
      rwa [List.length_cons, List.length_cons, show w.i + (nonce.length + 1 + 1) =
        w.i + 2 + nonce.length by omega] at this
    obtain ⟨f, rfl⟩ : ∃ f, fuel = f + 1 := ⟨fuel - 1, by omega⟩
    rw [extraLoop_step (by omega) hstep]
    exact extraLoop_aliasEntry halias hskip hnot hfirst hempty (by omega)

end

/-- Everything a coinbase's extra field was made of is read back, however many
zeros stand behind it. -/
theorem parse_coinbaseExtra (env : Env) {kd : KeyDerivation} {txkey : SecretKey}
    {nonce extra entry : Blob} {alinfo : AliasInfo} {k : Nat} {tx : TransactionPrefix}
    (hminer : minerExtra kd txkey nonce = some extra) (halias : AliasEntry alinfo entry)
    (htx : tx.extra = extra ++ entry ++ List.replicate k 0) (hgen : isCoinbase tx = true) :
    parseAndValidateTxExtra env tx =
      .ok (true, ⟨kd.pub txkey, aliasRead alinfo, nonce⟩) := by
  obtain ⟨hshort, hextra⟩ := minerExtra_eq_some.1 hminer
  have hkeylen : (txExtraTagPubkey :: bytesOfPod 32 (kd.pub txkey).toNat).length = 33 := by
    rw [List.length_cons, bytesOfPod_length]
  have hall : tx.extra = txExtraTagPubkey :: bytesOfPod 32 (kd.pub txkey).toNat ++
      (nonceField nonce ++ (entry ++ List.replicate k 0)) := by
    rw [htx, hextra, List.append_assoc, List.append_assoc]
  have hlen : tx.extra.length = 33 + ((nonceField nonce).length + (entry.length + k)) := by
    rw [hall, List.length_append, hkeylen, List.length_append, List.length_append,
      List.length_replicate]
  have hbehind : Behind tx.extra (ExtraWalk.behindKey (kd.pub txkey)).i
      (nonceField nonce ++ (entry ++ List.replicate k 0)) := ⟨_, hall, hkeylen.symm⟩
  obtain ⟨w, hw, hinfo⟩ := extraLoop_nonceField hshort halias hbehind rfl rfl rfl rfl rfl
    (show k + 3 < 2 * tx.extra.length + 1 by omega)
  have hloop := extraLoop_pubkey (kd.pub txkey) (nonceField nonce ++ (entry ++ List.replicate k 0))
    (2 * tx.extra.length + 1)
  rw [← hall, hw] at hloop
  have hcheck : checkMakeAliasTx env tx w.info = true := by
    unfold checkMakeAliasTx
    rw [if_pos (Or.inl hgen)]
  unfold parseAndValidateTxExtra
  rw [hloop]
  simp only [bind, Except.bind, pure, Except.pure, hcheck]
  rw [hinfo]
  rfl

end DarknetSpace
