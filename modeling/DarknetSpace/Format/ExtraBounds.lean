import DarknetSpace.Format.MinerAlias

/-!
# One step of the walk over the extra field, and where it leaves it

Every length in `tx.extra` comes from the sender. The checks in front of the
reads hold for the keys and the user data. Behind the keys of an alias entry they
are too short: the comment's counter is read without one, the comment's check is
one byte short, and 32 bytes are asked for in front of a signature of 64.

`extraStep_read` is the step lemma: a pass reads outside exactly if it stands at an
alias entry that ends so, and otherwise it stops or gets over what `Moved` says. What
the source does behind a read outside is undefined, so the first one ends the walk.
-/

namespace DarknetSpace

/-! ## Reads -/

section

variable {v : Blob} {i n : Nat}

theorem byteAt_of_lt (h : i < v.length) : byteAt v i = .ok v[i] :=
  byteAt_of_getElem? (List.getElem?_eq_getElem h)

theorem byteAt_outside (h : v.length ≤ i) : byteAt v i = .error .undefinedBehaviour := by
  unfold byteAt
  rw [List.getElem?_eq_none h]

theorem bytesAt_of_le (h : i + n ≤ v.length) : bytesAt v i n = .ok ((v.drop i).take n) := by
  unfold bytesAt
  rw [if_pos h]

theorem bytesAt_outside (h : ¬ i + n ≤ v.length) :
    bytesAt v i n = .error .undefinedBehaviour := by
  unfold bytesAt
  rw [if_neg h]

theorem podAt_of_le (h : i + n ≤ v.length) : ∃ key, podAt n v i = .ok key := by
  unfold podAt
  rw [bytesAt_of_le h]
  exact ⟨_, rfl⟩

/-- A key or signature not within it. -/
theorem podAt_outside (h : ¬ i + n ≤ v.length) : podAt n v i = .error .undefinedBehaviour := by
  unfold podAt
  rw [bytesAt_outside h]
  rfl

end

/-! ## The alias entry -/

/-- Where the counter of the comment is. -/
def aliasCommentAt (start : Nat) (flags nameLen : UInt8) : Nat :=
  start + 3 + nameLen.toNat + 64 +
    (if flags &&& txExtraTagAliasFlagsAddrWithTrack ≠ 0 then 32 else 0)

/-- From the comment's counter at `i` on a read goes outside: the counter's, the
last byte of a comment that ends the field one byte early, or the signature's. -/
def TailOutside (extra : Blob) (i : Nat) (flags : UInt8) : Prop :=
  ∀ commentLen, extra[i]? = some commentLen →
    commentLen ≠ 0 ∧ extra.length = i + commentLen.toNat ∨
    flags &&& txExtraTagAliasFlagsOpUpdate ≠ 0 ∧ i + 1 + commentLen.toNat + 32 ≤ extra.length ∧
      extra.length < i + 1 + commentLen.toNat + 64

/-- The keys of the entry at `start` lie inside, and a read behind them does not. -/
def AliasTailOutside (extra : Blob) (start : Nat) : Prop :=
  ∃ flags nameLen, extra[start + 1]? = some flags ∧ extra[start + 2]? = some nameLen ∧
    aliasCommentAt start flags nameLen ≤ extra.length ∧
    TailOutside extra (aliasCommentAt start flags nameLen) flags

/-- A tail can leave the vector only behind the two keys. -/
theorem AliasTailOutside.room {extra : Blob} {start : Nat} (h : AliasTailOutside extra start) :
    start + 67 ≤ extra.length := by
  obtain ⟨flags, nameLen, -, -, hle, -⟩ := h
  unfold aliasCommentAt at hle
  omega

/-- What a read of the alias entry at `start` comes to, where `outside` says that it
leaves the field. -/
structure AliasEntryRead (extra : Blob) (start : Nat) (outside : Prop)
    (r : Except Exn (Bool × AliasInfo × Nat)) : Prop where
  leaves : outside → r = .error .undefinedBehaviour
  stays : ¬ outside → ∃ ok alinfo len, r = .ok (ok, alinfo, len) ∧
    (ok = true → 1 < len ∧ start + len ≤ extra.length)

theorem AliasEntryRead.refused {extra : Blob} {start : Nat} {outside : Prop} (h : ¬ outside)
    (alinfo : AliasInfo) : AliasEntryRead extra start outside (.ok (false, alinfo, 0)) :=
  ⟨fun hout => absurd hout h, fun _ => ⟨false, alinfo, 0, rfl, nofun⟩⟩

theorem AliasEntryRead.left {extra : Blob} {start : Nat} {outside : Prop} (h : outside) :
    AliasEntryRead extra start outside (.error .undefinedBehaviour) :=
  ⟨fun _ => rfl, fun hin => absurd h hin⟩

/-- The entry was read, and the walk moves over its length. -/
theorem AliasEntryRead.read {extra : Blob} {start len : Nat} {outside : Prop} (h : ¬ outside)
    (alinfo : AliasInfo) (hlen : 1 < len) (hroom : start + len ≤ extra.length) :
    AliasEntryRead extra start outside (.ok (true, alinfo, len)) :=
  ⟨fun hout => absurd hout h, fun _ => ⟨true, alinfo, len, rfl, fun _ => ⟨hlen, hroom⟩⟩⟩

/-- Comment and signature: they are read within the vector unless `TailOutside` holds. -/
theorem readAliasTail_read {extra : Blob} {start i : Nat} (flags : UInt8) (hstart : start + 67 ≤ i)
    (alinfo : AliasInfo) :
    AliasEntryRead extra start (TailOutside extra i flags)
      (readAliasTail extra start i flags alinfo) := by
  unfold readAliasTail
  by_cases hcounter : i < extra.length
  · rw [byteAt_of_lt hcounter]
    simp only [bind, Except.bind, pure, Except.pure]
    generalize hlen : extra[i] = commentLen
    have hlen' : extra[i]? = some commentLen := by
      rw [← hlen]
      exact List.getElem?_eq_getElem hcounter
    -- with the counter known, so is what the tail has to be
    have houtside : TailOutside extra i flags ↔
        commentLen ≠ 0 ∧ extra.length = i + commentLen.toNat ∨
        flags &&& txExtraTagAliasFlagsOpUpdate ≠ 0 ∧
          i + 1 + commentLen.toNat + 32 ≤ extra.length ∧
          extra.length < i + 1 + commentLen.toNat + 64 := by
      refine ⟨fun h => h commentLen hlen', fun h c hc => ?_⟩
      obtain rfl : commentLen = c := Option.some_inj.1 (hlen'.symm.trans hc)
      exact h
    by_cases hshort : commentLen ≠ 0 ∧ extra.length - i < commentLen.toNat
    · rw [if_pos hshort]
      refine .refused (fun h => ?_) _
      rcases houtside.1 h with ⟨-, hend⟩ | ⟨-, hroom, -⟩ <;> omega
    · rw [if_neg hshort]
      by_cases hcomment : i + 1 + commentLen.toNat ≤ extra.length
      · rw [bytesAt_of_le hcomment]
        simp only
        by_cases hupdate : flags &&& txExtraTagAliasFlagsOpUpdate ≠ 0
        · simp only [if_pos hupdate]
          by_cases hrest : extra.length - (i + commentLen.toNat + 1) < 32
          · rw [if_pos ⟨hupdate, hrest⟩]
            refine .refused (fun h => ?_) _
            rcases houtside.1 h with ⟨-, hend⟩ | ⟨-, hroom, -⟩ <;> omega
          · rw [if_neg fun h => hrest h.2]
            by_cases hsign : i + commentLen.toNat + 1 + 64 ≤ extra.length
            · obtain ⟨sign, hread⟩ := podAt_of_le hsign
              rw [hread]
              refine .read (fun h => ?_) _ (by omega) (by omega)
              rcases houtside.1 h with ⟨-, hend⟩ | ⟨-, -, hroom⟩ <;> omega
            · rw [podAt_outside hsign]
              exact .left (houtside.2 (.inr ⟨hupdate, by omega, by omega⟩))
        · rw [if_neg fun h => hupdate h.1]
          simp only [if_neg hupdate]
          refine .read (fun h => ?_) _ (by omega) (by omega)
          rcases houtside.1 h with ⟨-, hend⟩ | ⟨hyes, -⟩
          · omega
          · exact hupdate hyes
      · rw [bytesAt_outside hcomment]
        have hsome : commentLen ≠ 0 := by
          intro hzero
          rw [hzero, UInt8.toNat_zero] at hcomment
          omega
        exact .left (houtside.2 (.inl ⟨hsome, by
          have := not_and.1 hshort hsome
          omega⟩))
  · rw [byteAt_outside (Nat.not_lt.1 hcounter)]
    refine .left fun c hc => ?_
    rw [List.getElem?_eq_none (Nat.not_lt.1 hcounter)] at hc
    cases hc

/-- The whole entry, whose front is checked before it is read. -/
theorem parseTxExtraAliasEntry_read (extra : Blob) (start : Nat) (alinfo : AliasInfo) :
    AliasEntryRead extra start (AliasTailOutside extra start)
      (parseTxExtraAliasEntry extra start alinfo) := by
  unfold parseTxExtraAliasEntry
  by_cases hhead : extra.length - 1 - start < 32 * 2 + 1
  · rw [if_pos hhead]
    refine .refused (fun h => ?_) alinfo
    have := h.room
    omega
  · have hflagsAt : start + 1 < extra.length := by omega
    have hnameAt : start + 2 < extra.length := by omega
    rw [if_neg hhead, byteAt_of_lt hflagsAt]
    simp only [bind, Except.bind, pure, Except.pure]
    rw [byteAt_of_lt hnameAt]
    simp only
    generalize hflags : extra[start + 1] = flags
    generalize hname : extra[start + 2] = nameLen
    have hflags' : extra[start + 1]? = some flags := by
      rw [← hflags]
      exact List.getElem?_eq_getElem hflagsAt
    have hname' : extra[start + 2]? = some nameLen := by
      rw [← hname]
      exact List.getElem?_eq_getElem hnameAt
    have houtside : AliasTailOutside extra start ↔
        aliasCommentAt start flags nameLen ≤ extra.length ∧
          TailOutside extra (aliasCommentAt start flags nameLen) flags := by
      refine ⟨?_, fun h => ⟨flags, nameLen, hflags', hname', h⟩⟩
      rintro ⟨f, n, hf, hn, h⟩
      obtain rfl : flags = f := Option.some_inj.1 (hflags'.symm.trans hf)
      obtain rfl : nameLen = n := Option.some_inj.1 (hname'.symm.trans hn)
      exact h
    have hbehind : start + 67 + nameLen.toNat ≤ aliasCommentAt start flags nameLen := by
      unfold aliasCommentAt
      omega
    -- the tail is read where the counter is, and decides
    have htail : aliasCommentAt start flags nameLen ≤ extra.length → ∀ al,
        AliasEntryRead extra start (AliasTailOutside extra start)
          (readAliasTail extra start (aliasCommentAt start flags nameLen) flags al) := by
      intro hle al
      rw [houtside, and_iff_right hle]
      exact readAliasTail_read flags (by omega) al
    by_cases hkeys : extra.length - 1 - (start + 2) < nameLen.toNat + 32 * 2
    · rw [if_pos hkeys]
      refine .refused (fun h => ?_) alinfo
      have := (houtside.1 h).1
      omega
    · obtain ⟨spendKey, hspend⟩ : ∃ key, podAt 32 extra (start + 3 + nameLen.toNat) = .ok key :=
        podAt_of_le (by omega)
      obtain ⟨viewKey, hview⟩ : ∃ key, podAt 32 extra (start + 3 + nameLen.toNat + 32) = .ok key :=
        podAt_of_le (by omega)
      rw [if_neg hkeys, bytesAt_of_le (by omega)]
      simp only
      rw [hspend]
      simp only
      rw [hview]
      simp only
      by_cases htrack : flags &&& txExtraTagAliasFlagsAddrWithTrack ≠ 0
      · have hat : aliasCommentAt start flags nameLen = start + 3 + nameLen.toNat + 64 + 32 := by
          unfold aliasCommentAt
          rw [if_pos htrack]
        simp only [if_pos htrack]
        by_cases hroom : extra.length - (start + 3 + nameLen.toNat + 64) < 32
        · rw [if_pos ⟨htrack, hroom⟩]
          refine .refused (fun h => ?_) _
          have := (houtside.1 h).1
          omega
        · obtain ⟨tracking, hread⟩ : ∃ key,
              podAt 32 extra (start + 3 + nameLen.toNat + 64) = .ok key := podAt_of_le (by omega)
          rw [if_neg fun h => hroom h.2, hread, ← hat]
          exact htail (by omega) _
      · have hat : aliasCommentAt start flags nameLen = start + 3 + nameLen.toNat + 64 := by
          unfold aliasCommentAt
          rw [if_neg htrack]
        simp only [if_neg htrack]
        rw [if_neg fun h => htrack h.1, ← hat]
        exact htail (by omega) _

/-! ## One step -/

/-- The alias entry at which the walk stands leaves the field. -/
structure OutsideAt (extra : Blob) (w : ExtraWalk) : Prop where
  noPadding : w.paddingStarted = false
  first : w.txAliasFound = false
  tag : extra[w.i]? = some txExtraTagAlias
  tail : AliasTailOutside extra w.i

/-- A byte that stands for itself. -/
def PlainTag (tag : UInt8) : Prop :=
  tag ≠ txExtraTagPubkey ∧ tag ≠ txExtraTagUserData ∧ tag ≠ txExtraTagAlias ∧ tag ≠ 0

instance (tag : UInt8) : Decidable (PlainTag tag) := by
  unfold PlainTag
  infer_instance

/-- What a pass gets over. -/
inductive Moved (extra : Blob) (w : ExtraWalk) : ExtraWalk → Prop where
  | zero (hpad : w.paddingStarted = true) (htag : extra[w.i]? = some 0) :
      Moved extra w { w with i := w.i + 1 }
  | key (info : TxExtraInfo) (hpad : w.paddingStarted = false)
      (htag : extra[w.i]? = some txExtraTagPubkey) (hfirst : w.txExtraTagPubkeyFound = false)
      (hroom : w.i + 33 ≤ extra.length) :
      Moved extra w { w with i := w.i + 33, txExtraTagPubkeyFound := true, info }
  | userData (info : TxExtraInfo) {len : UInt8} (hpad : w.paddingStarted = false)
      (htag : extra[w.i]? = some txExtraTagUserData) (hfirst : w.txExtraUserDataFound = false)
      (hlen : extra[w.i + 1]? = some len) (hroom : w.i + 2 + len.toNat ≤ extra.length) :
      Moved extra w { w with i := w.i + 2 + len.toNat, txExtraUserDataFound := true, info }
  | aliasEntry (info : TxExtraInfo) {len : Nat} (hpad : w.paddingStarted = false)
      (htag : extra[w.i]? = some txExtraTagAlias) (hlen : 1 < len)
      (hroom : w.i + len ≤ extra.length) :
      Moved extra w { w with i := w.i + len, txAliasFound := true, info }
  | startPadding (hpad : w.paddingStarted = false) (htag : extra[w.i]? = some 0) :
      Moved extra w { w with paddingStarted := true }
  | plain {tag : UInt8} (hpad : w.paddingStarted = false) (htag : extra[w.i]? = some tag)
      (hplain : PlainTag tag) : Moved extra w { w with i := w.i + 1 }

/-- What one pass of the loop comes to. -/
inductive StepRead (extra : Blob) (w : ExtraWalk) : Except Exn (Bool × ExtraWalk) → Prop where
  | leaves (hout : OutsideAt extra w) : StepRead extra w (.error .undefinedBehaviour)
  | refused (hin : ¬ OutsideAt extra w) (v : ExtraWalk) : StepRead extra w (.ok (false, v))
  | moved (hin : ¬ OutsideAt extra w) {w' : ExtraWalk} (h : Moved extra w w') :
      StepRead extra w (.ok (true, w'))

theorem not_outsideAt_of_tag {extra : Blob} {w : ExtraWalk} {tag : UInt8}
    (htag : extra[w.i]? = some tag) (hne : tag ≠ txExtraTagAlias) : ¬ OutsideAt extra w :=
  fun hout => hne (Option.some_inj.1 (htag.symm.trans hout.tag))

section

variable {extra : Blob} {w : ExtraWalk}

/-- A pass over the transaction's public key. -/
theorem extraStep_key (hpad : w.paddingStarted = false)
    (htag : extra[w.i]? = some txExtraTagPubkey) (hfirst : w.txExtraTagPubkeyFound = false)
    (hroom : w.i + 33 ≤ extra.length) :
    ∃ info, extraStep extra w =
      .ok (true, { w with i := w.i + 33, txExtraTagPubkeyFound := true, info }) := by
  obtain ⟨key, hread⟩ : ∃ key, podAt 32 extra (w.i + 1) = .ok key := podAt_of_le (by omega)
  have hcheck : ¬ (extra.length - 1 - w.i < 32 ∨ w.txExtraTagPubkeyFound = true) := by
    rw [hfirst]
    exact not_or.2 ⟨by omega, Bool.false_ne_true⟩
  unfold extraStep
  rw [byteAt_of_getElem? htag]
  simp only [bind, Except.bind, pure, Except.pure]
  rw [hpad, if_neg Bool.false_ne_true, if_pos trivial, if_neg hcheck, hread]
  exact ⟨_, rfl⟩

/-- A pass over user data. -/
theorem extraStep_data {len : UInt8} (hpad : w.paddingStarted = false)
    (htag : extra[w.i]? = some txExtraTagUserData) (hfirst : w.txExtraUserDataFound = false)
    (hlen : extra[w.i + 1]? = some len) (hroom : w.i + 2 + len.toNat ≤ extra.length) :
    ∃ info, extraStep extra w =
      .ok (true, { w with i := w.i + 2 + len.toNat, txExtraUserDataFound := true, info }) := by
  have hcheck : ¬ (w.txExtraUserDataFound = true ∨ extra.length - 1 - w.i < 1) := by
    rw [hfirst]
    exact not_or.2 ⟨Bool.false_ne_true, by omega⟩
  unfold extraStep
  rw [byteAt_of_getElem? htag]
  simp only [bind, Except.bind, pure, Except.pure]
  rw [hpad, if_neg Bool.false_ne_true, if_neg (by decide), if_pos trivial, if_neg hcheck,
    byteAt_of_getElem? hlen]
  simp only
  rw [if_neg (by omega), bytesAt_of_le hroom]
  exact ⟨_, rfl⟩

/-- A pass over a tag that carries nothing. -/
theorem extraStep_plain {tag : UInt8} (hpad : w.paddingStarted = false)
    (htag : extra[w.i]? = some tag) (hplain : PlainTag tag) :
    extraStep extra w = .ok (true, { w with i := w.i + 1 }) := by
  obtain ⟨hkey, hdata, halias, hzero⟩ := hplain
  unfold extraStep
  rw [byteAt_of_getElem? htag]
  simp only [bind, Except.bind, pure, Except.pure]
  rw [hpad, if_neg Bool.false_ne_true, if_neg hkey, if_neg hdata, if_neg halias, if_neg hzero]

/-- A pass over the first zero of the padding. -/
theorem extraStep_startPadding (hpad : w.paddingStarted = false) (htag : extra[w.i]? = some 0) :
    extraStep extra w = .ok (true, { w with paddingStarted := true }) := by
  unfold extraStep
  rw [byteAt_of_getElem? htag]
  simp only [bind, Except.bind, pure, Except.pure]
  rw [hpad, if_neg Bool.false_ne_true, if_neg (by decide), if_neg (by decide), if_neg (by decide),
    if_pos trivial]

/-- A pass within the padding, which only takes zeros. -/
theorem extraStep_padding {tag : UInt8} (hpad : w.paddingStarted = true)
    (htag : extra[w.i]? = some tag) :
    extraStep extra w = .ok (if tag ≠ 0 then (false, w) else (true, { w with i := w.i + 1 })) := by
  unfold extraStep
  rw [byteAt_of_getElem? htag]
  simp only [bind, Except.bind, pure, Except.pure]
  rw [if_pos hpad]
  by_cases hzero : tag ≠ 0
  · rw [if_pos hzero, if_pos hzero]
  · rw [if_neg hzero, if_neg hzero]

/-- A pass over an alias entry. -/
theorem extraStep_atAlias (hpad : w.paddingStarted = false)
    (htag : extra[w.i]? = some txExtraTagAlias) : StepRead extra w (extraStep extra w) := by
  unfold extraStep
  rw [byteAt_of_getElem? htag]
  simp only [bind, Except.bind, pure, Except.pure]
  rw [if_neg (Bool.eq_false_iff.1 hpad), if_neg (by decide), if_neg (by decide), if_pos trivial]
  by_cases hfound : w.txAliasFound = true
  · rw [if_pos hfound]
    refine .refused (fun hout => ?_) _
    rw [hout.first] at hfound
    cases hfound
  · rw [if_neg hfound]
    have hentry := parseTxExtraAliasEntry_read extra w.i w.info.mAlias
    by_cases htail : AliasTailOutside extra w.i
    · rw [hentry.leaves htail]
      exact .leaves ⟨hpad, Bool.eq_false_iff.2 hfound, htag, htail⟩
    · have hin : ¬ OutsideAt extra w := fun hout => htail hout.tail
      obtain ⟨ok, al, len, hread, hroom⟩ := hentry.stays htail
      rw [hread]
      cases ok
      · exact .refused hin _
      · obtain ⟨hlen, hle⟩ := hroom rfl
        exact .moved hin (.aliasEntry _ hpad htag hlen hle)

/-- The step lemma: every case of a pass. -/
theorem extraStep_read (hlt : w.i < extra.length) : StepRead extra w (extraStep extra w) := by
  obtain ⟨tag, htag⟩ : ∃ tag, extra[w.i]? = some tag := ⟨_, List.getElem?_eq_getElem hlt⟩
  cases hpad : w.paddingStarted with
  | true =>
    -- within the padding only the byte itself is looked at
    have hin : ¬ OutsideAt extra w := by
      intro hout
      rw [hout.noPadding] at hpad
      cases hpad
    rw [extraStep_padding hpad htag]
    by_cases hzero : tag ≠ 0
    · rw [if_pos hzero]
      exact .refused hin w
    · rw [if_neg hzero]
      rw [not_not.1 hzero] at htag
      exact .moved hin (.zero hpad htag)
  | false =>
    by_cases hkey : tag = txExtraTagPubkey
    · rw [hkey] at htag
      have hin := not_outsideAt_of_tag htag (by decide)
      by_cases hcheck : w.txExtraTagPubkeyFound = false ∧ w.i + 33 ≤ extra.length
      · obtain ⟨info, hstep⟩ := extraStep_key hpad htag hcheck.1 hcheck.2
        rw [hstep]
        exact .moved hin (.key info hpad htag hcheck.1 hcheck.2)
      -- a second key, or one that is cut off: refused before it is copied
      · have hrefuse : extra.length - 1 - w.i < 32 ∨ w.txExtraTagPubkeyFound = true := by
          by_cases hfirst : w.txExtraTagPubkeyFound = false
          · have := not_and.1 hcheck hfirst
            omega
          · exact .inr (Bool.eq_true_of_not_eq_false hfirst)
        unfold extraStep
        rw [byteAt_of_getElem? htag]
        simp only [bind, Except.bind, pure, Except.pure]
        rw [hpad, if_neg Bool.false_ne_true, if_pos trivial, if_pos hrefuse]
        exact .refused hin _
    · by_cases hdata : tag = txExtraTagUserData
      · rw [hdata] at htag
        have hin := not_outsideAt_of_tag htag (by decide)
        by_cases hcheck : w.txExtraUserDataFound = true ∨ extra.length - 1 - w.i < 1
        · unfold extraStep
          rw [byteAt_of_getElem? htag]
          simp only [bind, Except.bind, pure, Except.pure]
          rw [hpad, if_neg Bool.false_ne_true, if_neg (by decide), if_pos trivial, if_pos hcheck]
          exact .refused hin _
        · obtain ⟨hfirst, hroom⟩ := not_or.1 hcheck
          obtain ⟨len, hlen⟩ : ∃ len, extra[w.i + 1]? = some len :=
            ⟨_, List.getElem?_eq_getElem (by omega)⟩
          by_cases hcounter : w.i + 2 + len.toNat ≤ extra.length
          · have hfirst' := Bool.eq_false_iff.2 hfirst
            obtain ⟨info, hstep⟩ := extraStep_data hpad htag hfirst' hlen hcounter
            rw [hstep]
            exact .moved hin (.userData info hpad htag hfirst' hlen hcounter)
          · unfold extraStep
            rw [byteAt_of_getElem? htag]
            simp only [bind, Except.bind, pure, Except.pure]
            rw [hpad, if_neg Bool.false_ne_true, if_neg (by decide), if_pos trivial, if_neg hcheck,
              byteAt_of_getElem? hlen]
            simp only
            rw [if_pos (by omega)]
            exact .refused hin _
      · by_cases halias : tag = txExtraTagAlias
        · rw [halias] at htag
          -- the one tag whose entry may be read past the end
          exact extraStep_atAlias hpad htag
        · have hin := not_outsideAt_of_tag htag halias
          by_cases hzero : tag = 0
          · rw [hzero] at htag
            rw [extraStep_startPadding hpad htag]
            exact .moved hin (.startPadding hpad htag)
          · have hplain : PlainTag tag := ⟨hkey, hdata, halias, hzero⟩
            rw [extraStep_plain hpad htag hplain]
            exact .moved hin (.plain hpad htag hplain)

end

end DarknetSpace
