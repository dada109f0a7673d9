import DarknetSpace.Format.ExtraBounds

/-!
# The walk over the extra field as a whole

The passes of `parse_and_validate_tx_extra`'s loop, and what the field has to be for
all of them to stay inside. The walk leaves the field exactly if it gets to an alias
entry whose end does (`AliasLeaves`, said of the bytes in front of the entry).

It takes one pass a byte at most, but for the pass that starts the padding and does
not move on: only a field of single bytes and padding has none to spare for it.

`reads_inside_iff` is about where the walk reads and `passes_le_iff` about how often it
passes; both are proved along the walk from the front of the field on. Main result:
`parseAndValidateTxExtra_bounds_iff`, which puts them together for every field of bytes.
-/

namespace DarknetSpace

/-! ## The passes -/

/-- The passes of the loop, each with where it starts and where it leaves off; the
last one, where it is not the end of the field, does not get on. -/
def extraPasses (extra : Blob) : Nat → ExtraWalk → List (Nat × Nat)
  | 0, _ => []
  | fuel + 1, w =>
    if w.i = extra.length then []
    else
      match extraStep extra w with
      | .ok (true, w') => (w.i, w'.i) :: extraPasses extra fuel w'
      | _ => [(w.i, w.i)]

/-- The spans follow each other from `i` to `size`. -/
def EndToEnd (size : Nat) : Nat → List (Nat × Nat) → Prop
  | i, [] => i = size
  | i, (start, stop) :: rest => start = i ∧ start ≤ stop ∧ stop ≤ size ∧ EndToEnd size stop rest

/-- The passes that are left at most: one a byte, and one to start the padding. -/
def ExtraWalk.left (w : ExtraWalk) (size : Nat) : Nat :=
  size - w.i + if w.paddingStarted then 0 else 1

/-- Every pass uses one of them up. -/
theorem Moved.left {extra : Blob} {w w' : ExtraWalk} (hlt : w.i < extra.length)
    (h : Moved extra w w') :
    w.i ≤ w'.i ∧ w'.i ≤ extra.length ∧ w'.left extra.length < w.left extra.length := by
  unfold ExtraWalk.left
  cases h with
  | zero hpad => exact ⟨Nat.le_succ _, hlt, by simp only; omega⟩
  | key info hpad htag hfirst hroom => exact ⟨by simp only; omega, hroom, by simp only; omega⟩
  | userData info hpad htag hfirst hlen hroom =>
    exact ⟨by simp only; omega, hroom, by simp only; omega⟩
  | aliasEntry info hpad htag hlen hroom =>
    exact ⟨by simp only; omega, hroom, by simp only; omega⟩
  | startPadding hpad =>
    refine ⟨Nat.le_refl _, Nat.le_of_lt hlt, ?_⟩
    show extra.length - w.i + (if true = true then 0 else 1) < _
    rw [hpad, if_pos rfl, if_neg Bool.false_ne_true]
    exact Nat.lt_succ_self _
  | plain hpad => exact ⟨Nat.le_succ _, hlt, by simp only; omega⟩

section

variable {extra : Blob} {fuel : Nat} {w : ExtraWalk}

theorem extraPasses_end (hend : w.i = extra.length) : extraPasses extra fuel w = [] := by
  cases fuel with
  | zero => rfl
  | succ fuel =>
    unfold extraPasses
    rw [if_pos hend]

theorem extraPasses_moved {w' : ExtraWalk} (hlt : w.i < extra.length)
    (hstep : extraStep extra w = .ok (true, w')) :
    extraPasses extra (fuel + 1) w = (w.i, w'.i) :: extraPasses extra fuel w' := by
  conv_lhs => unfold extraPasses
  rw [if_neg (Nat.ne_of_lt hlt), hstep]

/-- A pass gets on, or it is the last one. -/
theorem extraPasses_cases (fuel : Nat) (hlt : w.i < extra.length) :
    (∃ w', Moved extra w w' ∧ extraStep extra w = .ok (true, w') ∧
      extraPasses extra (fuel + 1) w = (w.i, w'.i) :: extraPasses extra fuel w') ∨
    (∀ w', extraStep extra w ≠ .ok (true, w')) ∧ extraPasses extra (fuel + 1) w = [(w.i, w.i)] := by
  have hread := extraStep_read hlt
  generalize hstep : extraStep extra w = r at hread
  have hlast : (∀ w', r ≠ .ok (true, w')) → extraPasses extra (fuel + 1) w = [(w.i, w.i)] := by
    intro hne
    unfold extraPasses
    rw [if_neg (Nat.ne_of_lt hlt), hstep]
    split
    · next w' => exact absurd rfl (hne w')
    · rfl
  cases hread with
  | leaves hout =>
    have hne : ∀ w', (.error .undefinedBehaviour : Except Exn (Bool × ExtraWalk)) ≠ .ok (true, w') :=
      fun w' h => by cases h
    exact .inr ⟨hne, hlast hne⟩
  | refused hin v =>
    have hne : ∀ w', (.ok (false, v) : Except Exn (Bool × ExtraWalk)) ≠ .ok (true, w') :=
      fun w' h => by cases h
    exact .inr ⟨hne, hlast hne⟩
  | moved hin hmoved => exact .inl ⟨_, hmoved, rfl, extraPasses_moved hlt hstep⟩

theorem extraPasses_length (fuel : Nat) (hle : w.i ≤ extra.length) :
    (extraPasses extra fuel w).length ≤ w.left extra.length := by
  induction fuel generalizing w with
  | zero => exact Nat.zero_le _
  | succ fuel ih =>
    rcases Nat.lt_or_eq_of_le hle with hlt | hend
    · obtain ⟨w', hmoved, -, hpasses⟩ | ⟨-, hpasses⟩ := extraPasses_cases fuel hlt
      · obtain ⟨-, hle', hleft⟩ := hmoved.left hlt
        have hrest := ih hle'
        rw [hpasses, List.length_cons]
        omega
      · rw [hpasses, List.length_singleton]
        unfold ExtraWalk.left
        omega
    · rw [extraPasses_end hend]
      exact Nat.zero_le _

theorem extraPasses_le_succ (fuel : Nat) :
    (extraPasses extra fuel w).length ≤ (extraPasses extra (fuel + 1) w).length := by
  induction fuel generalizing w with
  | zero => exact Nat.zero_le _
  | succ fuel ih =>
    rw [extraPasses, extraPasses]
    split
    · exact Nat.le_refl _
    · split
      · exact Nat.succ_le_succ ih
      · exact Nat.le_refl _

/-- What a successful walk has got over lies end to end. -/
theorem endToEnd_of_ok {v : ExtraWalk} (hle : w.i ≤ extra.length)
    (h : extraLoop extra fuel w = .ok (true, v)) :
    EndToEnd extra.length w.i (extraPasses extra fuel w) := by
  induction fuel generalizing w with
  | zero => cases h
  | succ fuel ih =>
    unfold extraLoop at h
    rcases Nat.lt_or_eq_of_le hle with hlt | hend
    · rw [if_neg (Nat.ne_of_lt hlt)] at h
      obtain ⟨w', hmoved, hstep, hpasses⟩ | ⟨hne, -⟩ := extraPasses_cases fuel hlt
      · obtain ⟨hge, hle', -⟩ := hmoved.left hlt
        rw [hstep] at h
        rw [hpasses]
        exact ⟨rfl, hge, hle', ih hle' h⟩
      · split at h
        · next w' hstep => exact absurd hstep (hne w')
        · exact absurd h (hne v)
    · rw [extraPasses_end hend]
      exact hend

/-! ## One pass too many -/

/-- Plain bytes, then padding up to the last byte but one: nothing is got over in
fewer passes than it has bytes. -/
def OnlyPadded (extra : Blob) : Prop :=
  ∃ plain tail : Blob, extra = plain ++ 0 :: tail ∧ (∀ b ∈ plain, PlainTag b) ∧
    ∀ b ∈ tail.dropLast, b = 0

theorem drop_of_getElem? {i : Nat} {b : UInt8} (h : extra[i]? = some b) :
    extra.drop i = b :: extra.drop (i + 1) := by
  obtain ⟨hlt, rfl⟩ := List.getElem?_eq_some_iff.1 h
  exact List.drop_eq_getElem_cons hlt

/-- All but the last byte from `i` on are zero, seen from the first of them. -/
theorem zeros_from {i : Nat} {b : UInt8} (h : extra[i]? = some b) :
    (∀ c ∈ (extra.drop i).dropLast, c = 0) ↔
      i + 1 = extra.length ∨ b = 0 ∧ ∀ c ∈ (extra.drop (i + 1)).dropLast, c = 0 := by
  have hlt := (List.getElem?_eq_some_iff.1 h).1
  rw [drop_of_getElem? h]
  by_cases hlast : i + 1 = extra.length
  · rw [hlast, List.drop_length]
    exact iff_of_true nofun (.inl rfl)
  · have hne : extra.drop (i + 1) ≠ [] := by
      intro hnil
      have := congrArg List.length hnil
      rw [List.length_drop, List.length_nil] at this
      omega
    rw [List.dropLast_cons_of_ne_nil hne, List.forall_mem_cons, or_iff_right hlast]

/-- In the padding there is a pass a byte if all but the last byte are zero, and
there are fewer otherwise. -/
theorem padding_passes (hpad : w.paddingStarted = true) (hle : w.i ≤ extra.length)
    (hfuel : extra.length - w.i ≤ fuel) :
    (extraPasses extra fuel w).length ≤ extra.length - w.i ∧
      ((extraPasses extra fuel w).length = extra.length - w.i ↔
        ∀ b ∈ (extra.drop w.i).dropLast, b = 0) := by
  induction fuel generalizing w with
  | zero =>
    have hend : w.i = extra.length := by omega
    rw [hend, List.drop_length, Nat.sub_self]
    exact ⟨Nat.zero_le _, iff_of_true rfl nofun⟩
  | succ fuel ih =>
    rcases Nat.lt_or_eq_of_le hle with hlt | hend
    · obtain ⟨tag, htag⟩ : ∃ tag, extra[w.i]? = some tag := ⟨_, List.getElem?_eq_getElem hlt⟩
      have hstep := extraStep_padding hpad htag
      rw [zeros_from htag]
      by_cases hzero : tag ≠ 0
      · -- the last pass: it takes a byte only if that is the last one
        rw [if_pos hzero] at hstep
        obtain ⟨w', -, hstep', -⟩ | ⟨-, hpasses⟩ := extraPasses_cases fuel hlt
        · rw [hstep] at hstep'
          cases hstep'
        · rw [hpasses, List.length_singleton, or_iff_left fun h => hzero h.1]
          omega
      · rw [if_neg hzero] at hstep
        rw [extraPasses_moved hlt hstep, List.length_cons, and_iff_right (not_not.1 hzero)]
        obtain ⟨hshort, hall⟩ := ih (w := { w with i := w.i + 1 }) hpad hlt (by simp only; omega)
        simp only at hshort hall
        rw [← hall]
        omega
    · rw [extraPasses_end hend, hend, List.drop_length, Nat.sub_self]
      exact ⟨Nat.le_refl _, iff_of_true rfl nofun⟩

/-- A walk without padding so far takes a pass a byte at most, but one more if
plain bytes and padding are all that is left. -/
theorem passes_lt_iff (hpad : w.paddingStarted = false) (hle : w.i ≤ extra.length)
    (hfuel : extra.length - w.i < fuel) :
    extra.length - w.i < (extraPasses extra fuel w).length ↔ OnlyPadded (extra.drop w.i) := by
  induction fuel generalizing w with
  | zero => exact absurd hfuel (Nat.not_lt_zero _)
  | succ fuel ih =>
    rcases Nat.lt_or_eq_of_le hle with hlt | hend
    · obtain ⟨tag, htag⟩ : ∃ tag, extra[w.i]? = some tag := ⟨_, List.getElem?_eq_getElem hlt⟩
      have hdrop := drop_of_getElem? htag
      by_cases hzero : tag = 0
      -- the padding begins here; its first pass moves nothing, so it takes one pass more than
      -- bytes
      · rw [hzero] at htag hdrop
        rw [extraPasses_moved hlt (extraStep_startPadding hpad htag), List.length_cons]
        obtain ⟨hshort, hall⟩ := padding_passes (w := { w with paddingStarted := true }) rfl hle
          (show extra.length - w.i ≤ fuel by omega)
        simp only at hshort hall
        have honly : OnlyPadded (extra.drop w.i) ↔ ∀ b ∈ (extra.drop w.i).dropLast, b = 0 := by
          rw [zeros_from htag, and_iff_right rfl, hdrop]
          constructor
          · rintro ⟨plain, tail, heq, hplain, htail⟩
            cases plain with
            | nil =>
              rw [(List.cons.inj heq).2]
              exact .inr htail
            | cons b plain =>
              have hb := (List.forall_mem_cons.1 hplain).1
              rw [← (List.cons.inj heq).1] at hb
              exact absurd rfl hb.2.2.2
          · intro h
            refine ⟨[], extra.drop (w.i + 1), rfl, nofun, ?_⟩
            rcases h with hlast | htail
            · rw [hlast, List.drop_length]
              exact nofun
            · exact htail
        rw [honly, ← hall]
        omega
      · by_cases hplain : PlainTag tag
        -- a byte that means nothing: one pass for one byte
        · rw [extraPasses_moved hlt (extraStep_plain hpad htag hplain), List.length_cons]
          have hrest := ih (w := { w with i := w.i + 1 }) hpad hlt
            (show extra.length - (w.i + 1) < fuel by omega)
          simp only at hrest
          have honly : OnlyPadded (extra.drop w.i) ↔ OnlyPadded (extra.drop (w.i + 1)) := by
            rw [hdrop]
            constructor
            · rintro ⟨plain, tail, heq, hall, htail⟩
              cases plain with
              | nil => exact absurd (List.cons.inj heq).1 hzero
              | cons b plain =>
                exact ⟨plain, tail, (List.cons.inj heq).2, (List.forall_mem_cons.1 hall).2, htail⟩
            · rintro ⟨plain, tail, heq, hall, htail⟩
              exact ⟨tag :: plain, tail, congrArg (tag :: ·) heq,
                List.forall_mem_cons.2 ⟨hplain, hall⟩, htail⟩
          rw [honly, ← hrest]
          omega
        · -- an entry of two bytes or more, or the last pass
          refine iff_of_false ?_ ?_
          · obtain ⟨w', hmoved, -, hpasses⟩ | ⟨-, hpasses⟩ := extraPasses_cases fuel hlt
            · have hfar : w.i + 2 ≤ w'.i ∧ w'.i ≤ extra.length := by
                cases hmoved with
                | zero _ htag' => exact absurd (Option.some_inj.1 (htag.symm.trans htag')) hzero
                | key info _ _ _ hroom => exact ⟨by simp only; omega, hroom⟩
                | userData info _ _ _ _ hroom => exact ⟨by simp only; omega, hroom⟩
                | aliasEntry info _ _ hlen hroom => exact ⟨by simp only; omega, hroom⟩
                | startPadding _ htag' =>
                  exact absurd (Option.some_inj.1 (htag.symm.trans htag')) hzero
                | plain _ htag' hplain' =>
                  rw [← Option.some_inj.1 (htag.symm.trans htag')] at hplain'
                  exact absurd hplain' hplain
              have hrest := extraPasses_length fuel hfar.2
              unfold ExtraWalk.left at hrest
              rw [hpasses, List.length_cons]
              split at hrest <;> omega
            · rw [hpasses, List.length_singleton]
              omega
          · rintro ⟨plain, tail, heq, hall, htail⟩
            rw [hdrop] at heq
            cases plain with
            | nil => exact hzero (List.cons.inj heq).1
            | cons b plain =>
              rw [(List.cons.inj heq).1] at hplain
              exact hplain (List.forall_mem_cons.1 hall).1
    · rw [extraPasses_end hend, hend, List.drop_length]
      refine iff_of_false (Nat.not_lt_zero _) ?_
      rintro ⟨plain, tail, heq, -⟩
      have := congrArg List.length heq
      rw [List.length_append, List.length_cons, List.length_nil] at this
      omega

end

/-! ## Where the walk gets to -/

/-- The field up to `i` is plain bytes, a public key at most and user data at most,
in any order. -/
inductive Walked (extra : Blob) : (key data : Bool) → Nat → Prop where
  | start : Walked extra false false 0
  | key {data : Bool} {i : Nat} (h : Walked extra false data i)
      (htag : extra[i]? = some txExtraTagPubkey) (hroom : i + 33 ≤ extra.length) :
      Walked extra true data (i + 33)
  | userData {key : Bool} {i : Nat} {len : UInt8} (h : Walked extra key false i)
      (htag : extra[i]? = some txExtraTagUserData) (hlen : extra[i + 1]? = some len)
      (hroom : i + 2 + len.toNat ≤ extra.length) : Walked extra key true (i + 2 + len.toNat)
  | plain {key data : Bool} {i : Nat} {tag : UInt8} (h : Walked extra key data i)
      (htag : extra[i]? = some tag) (hplain : PlainTag tag) : Walked extra key data (i + 1)

/-- An alias entry the walk gets to, and what is behind its keys leaves the field. -/
def AliasLeaves (extra : Blob) : Prop :=
  ∃ key data i, Walked extra key data i ∧ extra[i]? = some txExtraTagAlias ∧
    AliasTailOutside extra i

/-- The walk stands where `Walked` says, unless it has had its alias or padding. -/
def ExtraWalk.Stands (extra : Blob) (w : ExtraWalk) : Prop :=
  w.paddingStarted = false → w.txAliasFound = false →
    Walked extra w.txExtraTagPubkeyFound w.txExtraUserDataFound w.i

theorem Moved.stands {extra : Blob} {w w' : ExtraWalk} (h : Moved extra w w')
    (hw : w.Stands extra) : w'.Stands extra := by
  intro hpad' hfirst'
  cases h with
  | zero hpad =>
    rw [hpad] at hpad'
    cases hpad'
  | key info hpad htag hfirst hroom =>
    have hstand := hw hpad hfirst'
    rw [hfirst] at hstand
    exact hstand.key htag hroom
  | userData info hpad htag hfirst hlen hroom =>
    have hstand := hw hpad hfirst'
    rw [hfirst] at hstand
    exact hstand.userData htag hlen hroom
  | aliasEntry => cases hfirst'
  | startPadding => cases hpad'
  | plain hpad htag hplain => exact (hw hpad hfirst').plain htag hplain

/-- The walk gets there, in a pass a byte at most. -/
theorem Walked.reached {extra : Blob} {key data : Bool} {i : Nat} (h : Walked extra key data i) :
    ∃ (n : Nat) (w : ExtraWalk), n ≤ i ∧ w.i = i ∧ w.paddingStarted = false ∧ w.txAliasFound = false ∧
      w.txExtraTagPubkeyFound = key ∧ w.txExtraUserDataFound = data ∧
      ∀ fuel, extraLoop extra (fuel + n) ExtraWalk.start = extraLoop extra fuel w := by
  have hnext : ∀ {w w' : ExtraWalk} {n : Nat}, w.i < extra.length →
      extraStep extra w = .ok (true, w') →
      (∀ fuel, extraLoop extra (fuel + n) ExtraWalk.start = extraLoop extra fuel w) →
      ∀ fuel, extraLoop extra (fuel + (n + 1)) ExtraWalk.start = extraLoop extra fuel w' := by
    intro w w' n hlt hstep hloop fuel
    rw [show fuel + (n + 1) = fuel + 1 + n by omega, hloop]
    exact extraLoop_step (Nat.ne_of_lt hlt) hstep fuel
  induction h with
  | start => exact ⟨0, ExtraWalk.start, Nat.le_refl 0, rfl, rfl, rfl, rfl, rfl, fun _ => rfl⟩
  | key _ htag hroom ih =>
    obtain ⟨n, w, hn, rfl, hpad, hfirst, hkey, hdata, hloop⟩ := ih
    obtain ⟨info, hstep⟩ := extraStep_key hpad htag hkey hroom
    exact ⟨n + 1, { w with i := w.i + 33, txExtraTagPubkeyFound := true, info }, by omega, rfl, hpad,
      hfirst, rfl, hdata, hnext (by omega) hstep hloop⟩
  | @userData _ _ len _ htag hlen hroom ih =>
    obtain ⟨n, w, hn, rfl, hpad, hfirst, hkey, hdata, hloop⟩ := ih
    obtain ⟨info, hstep⟩ := extraStep_data hpad htag hdata hlen hroom
    exact ⟨n + 1, { w with i := w.i + 2 + len.toNat, txExtraUserDataFound := true, info }, by omega,
      rfl, hpad, hfirst, hkey, rfl, hnext (by omega) hstep hloop⟩
  | plain _ htag hplain ih =>
    obtain ⟨n, w, hn, rfl, hpad, hfirst, hkey, hdata, hloop⟩ := ih
    have hstep := extraStep_plain hpad htag hplain
    have hlt := (List.getElem?_eq_some_iff.1 htag).1
    exact ⟨n + 1, { w with i := w.i + 1 }, by omega, rfl, hpad, hfirst, hkey, hdata,
      hnext hlt hstep hloop⟩

/-- A walk that leaves the field, or does not end, has got to such an alias entry. -/
theorem leaves_of_error {extra : Blob} {fuel : Nat} {w : ExtraWalk} {e : Exn}
    (hw : w.Stands extra) (hle : w.i ≤ extra.length) (hfuel : w.left extra.length < fuel)
    (h : extraLoop extra fuel w = .error e) : AliasLeaves extra := by
  induction fuel generalizing w with
  | zero => exact absurd hfuel (Nat.not_lt_zero _)
  | succ fuel ih =>
    unfold extraLoop at h
    by_cases hend : w.i = extra.length
    · rw [if_pos hend] at h
      cases h
    · have hlt : w.i < extra.length := Nat.lt_of_le_of_ne hle hend
      have hread := extraStep_read hlt
      rw [if_neg hend] at h
      generalize extraStep extra w = r at h hread
      cases hread with
      | leaves hout =>
        exact ⟨_, _, w.i, hw hout.noPadding hout.first, hout.tag, hout.tail⟩
      | refused hin v => cases h
      | moved hin hmoved =>
        obtain ⟨-, hle', hleft⟩ := hmoved.left hlt
        exact ih (hmoved.stands hw) hle' (by omega) h

/-- Every read of the walk lies inside the field, and the walk ends, exactly if it
gets to no alias entry that leaves the field. -/
theorem reads_inside_iff (env : Env) (tx : TransactionPrefix) :
    (∀ e, parseAndValidateTxExtra env tx ≠ .error e) ↔ ¬ AliasLeaves tx.extra := by
  constructor
  · rintro hinside ⟨key, data, i, hwalked, htag, htail⟩
    obtain ⟨n, w, hn, rfl, hpad, hfirst, -, -, hloop⟩ := hwalked.reached
    have hlt := (List.getElem?_eq_some_iff.1 htag).1
    have hread := extraStep_read hlt
    have herror : extraStep tx.extra w = .error .undefinedBehaviour := by
      generalize extraStep tx.extra w = r at hread
      cases hread with
      | leaves => rfl
      | refused hin => exact absurd ⟨hpad, hfirst, htag, htail⟩ hin
      | moved hin => exact absurd ⟨hpad, hfirst, htag, htail⟩ hin
    refine hinside .undefinedBehaviour ?_
    have hfuel := hloop (2 * tx.extra.length + 1 - n + 1)
    rw [show 2 * tx.extra.length + 1 - n + 1 + n = 2 * tx.extra.length + 2 by omega] at hfuel
    unfold parseAndValidateTxExtra
    rw [hfuel, extraLoop, if_neg (Nat.ne_of_lt hlt), herror]
    rfl
  · intro hin e h
    refine hin ?_
    unfold parseAndValidateTxExtra at h
    generalize hr : extraLoop tx.extra (2 * tx.extra.length + 2) ExtraWalk.start = r at h
    rcases r with e' | ⟨ok, w⟩
    · have hstart : ExtraWalk.start.left tx.extra.length = tx.extra.length + 1 := rfl
      exact leaves_of_error (fun _ _ => .start) (Nat.zero_le _) (by omega) hr
    · cases ok <;> cases h

/-- One pass a byte at most, exactly if the field is more than plain bytes and
padding. -/
theorem passes_le_iff (extra : Blob) :
    (∀ fuel, (extraPasses extra fuel ExtraWalk.start).length ≤ extra.length) ↔
      ¬ OnlyPadded extra := by
  have hiff : extra.length - ExtraWalk.start.i <
      (extraPasses extra (extra.length + 1) ExtraWalk.start).length ↔
        OnlyPadded (extra.drop ExtraWalk.start.i) :=
    passes_lt_iff rfl (Nat.zero_le _) (Nat.lt_succ_self _)
  rw [show extra.length - ExtraWalk.start.i = extra.length from Nat.sub_zero _,
    show extra.drop ExtraWalk.start.i = extra from rfl] at hiff
  rw [← hiff, Nat.not_lt]
  refine ⟨fun h => h _, fun h fuel => ?_⟩
  have hmono : Monotone fun fuel => (extraPasses extra fuel ExtraWalk.start).length :=
    monotone_nat_of_le_succ fun fuel => extraPasses_le_succ fuel
  rcases Nat.le_total fuel (extra.length + 1) with hless | hmore
  · exact (hmono hless).trans h
  · -- the passes end by themselves
    by_contra hlong
    have hmany : extra.length - ExtraWalk.start.i <
        (extraPasses extra fuel ExtraWalk.start).length ↔
          OnlyPadded (extra.drop ExtraWalk.start.i) :=
      passes_lt_iff rfl (Nat.zero_le _) hmore
    rw [show extra.length - ExtraWalk.start.i = extra.length from Nat.sub_zero _,
      show extra.drop ExtraWalk.start.i = extra from rfl] at hmany
    exact absurd (hiff.2 (hmany.1 (Nat.not_le.1 hlong))) (Nat.not_lt.2 h)

/-- The walk takes a pass a byte at most, reads nothing outside the field, and has
got over all of it when it succeeds, exactly if the field is more than plain bytes
and padding and the walk gets to no alias entry that leaves the field. -/
theorem parseAndValidateTxExtra_bounds_iff (env : Env) (tx : TransactionPrefix) :
    ((∀ fuel, (extraPasses tx.extra fuel ExtraWalk.start).length ≤ tx.extra.length) ∧
      (∀ e, parseAndValidateTxExtra env tx ≠ .error e) ∧
      ∀ info, parseAndValidateTxExtra env tx = .ok (true, info) →
        EndToEnd tx.extra.length 0
          (extraPasses tx.extra (2 * tx.extra.length + 2) ExtraWalk.start)) ↔
      ¬ OnlyPadded tx.extra ∧ ¬ AliasLeaves tx.extra := by
  rw [passes_le_iff, reads_inside_iff]
  refine and_congr_right fun _ => and_iff_left fun info h => ?_
  unfold parseAndValidateTxExtra at h
  generalize hr : extraLoop tx.extra (2 * tx.extra.length + 2) ExtraWalk.start = r at h
  rcases r with e | ⟨ok, w⟩
  · cases h
  · cases ok
    · exact absurd (congrArg Prod.fst (Except.ok.inj h)) Bool.false_ne_true
    · exact endToEnd_of_ok (w := ExtraWalk.start) (Nat.zero_le _) hr

namespace Devnet

/-- An alias of one letter, and nothing behind its keys. -/
def bareAlias : Blob := [3, 0, 1, 97] ++ List.replicate 64 7

def readsOutside {α : Type} : Except Exn α → Bool
  | .error .undefinedBehaviour => true
  | _ => false

end Devnet

/-- The zero that starts the padding is looked at twice; and the counter of a
comment may be read outside. -/
theorem padding_looked_at_twice :
    ¬ (extraPasses [0] 4 ExtraWalk.start).length ≤ ([0] : Blob).length ∧
      Devnet.readsOutside (extraLoop Devnet.bareAlias (2 * Devnet.bareAlias.length + 2)
        ExtraWalk.start) = true := by
  decide

end DarknetSpace
