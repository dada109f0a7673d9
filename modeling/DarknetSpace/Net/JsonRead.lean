import DarknetSpace.Net.JsonForm

/-!
# Reading arrays and sections of JSON

The loop of `run_handler` reads the first element of an array in one state and the
others in another: the first makes the array, and the next ones are put into it, if
they are of its type. `FirstReads` and `NextReads` say this of one element, and
`reads_array` puts an array together from them, by induction over the elements that
are still to come.

An element is a string, an integer, a `bool` or a section (`ReadsElement`). A section
is read by a call of `run_handler` on a section of its own, so `SectionReads` is about
a whole call, and `reads_entries` goes through the entries of one, each behind the
other in name. `reads_section` is the result: a section whose entries can be read, can
be read.
-/

namespace DarknetSpace.PortableStorage

/-! ### Arrays -/

theorem mapM_nil {α β : Type} (f : α → Option β) : [].mapM f = some [] := rfl

theorem mapM_cons_none {α β : Type} {f : α → Option β} {x : α} (xs : List α) (h : f x = none) :
    (x :: xs).mapM f = none := by
  rw [List.mapM_cons, h]
  rfl

theorem mapM_cons_some {α β : Type} {f : α → Option β} {x : α} (xs : List α) {y : β}
    (h : f x = some y) : (x :: xs).mapM f = (xs.mapM f).map (y :: ·) := by
  rw [List.mapM_cons, h]
  cases xs.mapM f <;> rfl

theorem mapM_some {α : Type} (xs : List α) : xs.mapM some = some xs := by
  induction xs with
  | nil => rfl
  | cons x xs ih => rw [mapM_cons_some xs rfl, ih, Option.map_some]

/-- The text behind an element: the closing bracket, or a comma and the rest. -/
def more : List Blob → Blob
  | [] => [rightBracket]
  | xs => commaChar :: joined xs

theorem joined_cons (x : Blob) (xs : List Blob) : joined (x :: xs) = x ++ more xs := by
  cases xs <;> rfl

theorem ends_more (xs : List Blob) (rest : Blob) : Ends (more xs ++ rest) := by
  cases xs with
  | nil => exact ⟨rightBracket, rest, rfl, .inr (.inr rfl)⟩
  | cons x xs => exact ⟨commaChar, joined (x :: xs) ++ rest, rfl, .inl rfl⟩

section Elements

variable {α β : Type} {d : DoubleText} {s : Section} {name : Blob} {md : ArrayMode}
  {text : α → Blob} {value : α → Option β} {build : List β → ArrayEntry}

/-- The handler behind an element of the array. -/
def behindElement (s : Section) (name : Blob) (md : ArrayMode) (a : ArrayEntry) : RunHandler :=
  ⟨s ++ [(name, .array a)], name, .arrayAfterValue, md⟩

/-- The first element of an array is read where it has been written. -/
def FirstReads (d : DoubleText) (s : Section) (name : Blob) (md : ArrayMode)
    (build : List β → ArrayEntry) (text : Blob) (value : Option β) : Prop :=
  ∀ rest r, Ends rest → GoesOn d value (fun y => behindElement s name md (build [y])) rest r →
    Reads d ⟨s, name, .wonderArray, .undifined⟩ (text ++ rest) r

/-- And so is another one. -/
def NextReads (d : DoubleText) (s : Section) (name : Blob) (md : ArrayMode)
    (build : List β → ArrayEntry) (text : Blob) (value : Option β) : Prop :=
  ∀ ys rest r, Ends rest →
    GoesOn d value (fun y => behindElement s name md (build (ys ++ [y]))) rest r →
    Reads d ⟨s ++ [(name, .array (build ys))], name, .arrayWaitingValue, md⟩ (text ++ rest) r

/-- The elements behind the first one, by induction on them. -/
theorem reads_more {xs : List α}
    (hnext : ∀ x ∈ xs, NextReads d s name md build (text x) (value x)) {ys : List β} {rest : Blob}
    {r : Option (Section × Option Blob)}
    (hr : GoesOn d (xs.mapM value)
      (fun zs => ⟨s ++ [(name, .array (build (ys ++ zs)))], name, .wonderAfterValue, .undifined⟩)
      rest r) :
    Reads d (behindElement s name md (build ys)) (more (xs.map text) ++ rest) r := by
  induction xs generalizing ys with
  | nil =>
    rw [mapM_nil] at hr
    have hr : Reads d ⟨s ++ [(name, .array (build (ys ++ [])))], name, .wonderAfterValue,
        .undifined⟩ rest r := hr
    rw [List.append_nil] at hr
    exact Reads.goesOn rfl hr
  | cons x xs ih =>
    obtain ⟨hx, hxs⟩ := List.forall_mem_cons.1 hnext
    refine Reads.goesOn rfl ?_
    show Reads d ⟨s ++ [(name, .array (build ys))], name, .arrayWaitingValue, md⟩
      (joined ((x :: xs).map text) ++ rest) r
    rw [List.map_cons, joined_cons, List.append_assoc]
    refine hx ys _ r (ends_more _ rest) ?_
    cases hvalue : value x with
    | none =>
      rw [mapM_cons_none xs hvalue] at hr
      exact hr
    | some y =>
      refine ih hxs ?_
      rw [mapM_cons_some xs hvalue] at hr
      cases hmap : xs.mapM value with
      | none =>
        rw [hmap] at hr
        exact hr
      | some zs =>
        rw [hmap] at hr
        have happend : ys ++ [y] ++ zs = ys ++ y :: zs := by
          rw [List.append_assoc]
          rfl
        show Reads d ⟨s ++ [(name, .array (build (ys ++ [y] ++ zs)))], _, _, _⟩ rest r
        rw [happend]
        exact hr

/-- A whole array: the first element opens it, the others are put in at its end. -/
theorem reads_array {xs : List α}
    (hfirst : ∀ x ∈ xs, FirstReads d s name md build (text x) (value x))
    (hnext : ∀ x ∈ xs, NextReads d s name md build (text x) (value x)) {rest : Blob}
    {r : Option (Section × Option Blob)}
    (hr : GoesOn d (((xs.mapM value).map (arrayOf build)).map fun a => a.map StorageEntry.array)
      (fun e => ⟨keep s name e, name, .wonderAfterValue, .undifined⟩) rest r) :
    Reads d ⟨s, name, .wonderAfterSeparator, .undifined⟩ (bracketed (xs.map text) ++ rest) r := by
  refine Reads.goesOn rfl ?_
  show Reads d ⟨s, name, .wonderArray, .undifined⟩ (joined (xs.map text) ++ rest) r
  cases xs with
  | nil =>
    have hr : Reads d ⟨s ++ [], name, .wonderAfterValue, .undifined⟩ rest r := hr
    rw [List.append_nil] at hr
    exact Reads.goesOn rfl hr
  | cons x xs =>
    rw [List.map_cons, joined_cons, List.append_assoc]
    refine hfirst x (List.mem_cons_self ..) _ r (ends_more _ rest) ?_
    cases hvalue : value x with
    | none =>
      rw [mapM_cons_none xs hvalue] at hr
      exact hr
    | some y =>
      refine reads_more (fun x' hx' => hnext x' (List.mem_cons_of_mem _ hx')) ?_
      rw [mapM_cons_some xs hvalue] at hr
      cases hmap : xs.mapM value with
      | none =>
        rw [hmap] at hr
        exact hr
      | some zs =>
        rw [hmap] at hr
        exact hr

/-- An element that is no section, as `readElement` reads it. -/
def ReadsElement (d : DoubleText) (md : ArrayMode) (build : List β → ArrayEntry) (text : Blob)
    (value : Option β) : Prop :=
  ∀ rest, Ends rest → ∃ c tail, text ++ rest = c :: tail ∧ modeOf c = some md ∧
    readElement d md c tail = value.map fun y => (build [y], rest)

theorem ne_of_modeOf {c : UInt8} {md : ArrayMode} (h : modeOf c = some md) :
    c ≠ leftBracket ∧ c ≠ leftBrace ∧ c ≠ rightBracket := by
  refine ⟨?_, ?_, ?_⟩ <;>
    · rintro rfl
      cases h

/-- The first element of a flat array opens the array under the name. -/
theorem ReadsElement.first (hbefore : Before s name) {x : Blob} {v : Option β}
    (h : ReadsElement d md build x v) : FirstReads d s name md build x v := by
  intro rest r hends hr
  obtain ⟨c, tail, htext, hmode, hread⟩ := h rest hends
  obtain ⟨hbracket, hbrace, hright⟩ := ne_of_modeOf hmode
  rw [htext]
  have hturn : ∀ turn, RunHandler.firstElement d ⟨s, name, .wonderArray, .undifined⟩ c tail = turn →
      RunHandler.turn d ⟨s, name, .wonderArray, .undifined⟩ c tail = turn := fun _ h => h
  unfold RunHandler.firstElement at hturn
  rw [if_neg hbracket, if_neg hbrace, if_neg hright, hmode] at hturn
  simp only at hturn
  rw [hread] at hturn
  cases v with
  | none =>
    rw [show r = none from hr]
    exact Reads.throws (hturn _ rfl)
  | some y =>
    refine Reads.goesOn (hturn _ rfl) ?_
    unfold RunHandler.setArray
    simp only
    rw [hbefore.setValue]
    exact hr

/-- A further element of a flat array, of the kind the array is of, is read and put in. -/
theorem nextElement_inserts {h : RunHandler} {c : UInt8} {tail : Blob} {a : ArrayEntry}
    (hmode : modeOf c = some h.arrayMd) (harray : h.hArray = some a) :
    h.nextElement d c tail =
      match readElement d h.arrayMd c tail with
      | none => .throws
      | some (element, rest) =>
        match insertNextValue a element with
        | none => .throws
        | some a => .goesOn (h.setArray a h.arrayMd) rest := by
  have hmodes : h.arrayMd ≠ .undifined ∧ h.arrayMd ≠ .sections := by
    unfold modeOf at hmode
    split_ifs at hmode <;> · rw [← Option.some.inj hmode]; exact ⟨nofun, nofun⟩
  unfold RunHandler.nextElement
  rw [harray]
  cases hmd : h.arrayMd with
  | undifined => exact absurd hmd hmodes.1
  | sections => exact absurd hmd hmodes.2
  | string | numbers | booleans =>
    rw [hmd] at hmode
    simp only
    rw [if_pos hmode]
    rfl

/-- A further element of a flat array. -/
theorem ReadsElement.next (hbefore : Before s name)
    (hinsert : ∀ ys y, insertNextValue (build ys) (build [y]) = some (build (ys ++ [y]))) {x : Blob}
    {v : Option β} (h : ReadsElement d md build x v) : NextReads d s name md build x v := by
  intro ys rest r hends hr
  obtain ⟨c, tail, htext, hmode, hread⟩ := h rest hends
  rw [htext]
  have harray : RunHandler.hArray ⟨s ++ [(name, .array (build ys))], name, .arrayWaitingValue, md⟩ =
      some (build ys) := by
    unfold RunHandler.hArray
    simp only
    rw [hbefore.find_last]
  have hturn : ∀ turn, RunHandler.nextElement d
      ⟨s ++ [(name, .array (build ys))], name, .arrayWaitingValue, md⟩ c tail = turn →
      RunHandler.turn d ⟨s ++ [(name, .array (build ys))], name, .arrayWaitingValue, md⟩ c tail =
        turn := fun _ h => h
  rw [nextElement_inserts hmode harray] at hturn
  simp only at hturn
  rw [hread] at hturn
  cases v with
  | none =>
    rw [show r = none from hr]
    exact Reads.throws (hturn _ rfl)
  | some y =>
    simp only [Option.map_some] at hturn
    rw [hinsert] at hturn
    refine Reads.goesOn (hturn _ rfl) ?_
    unfold RunHandler.setArray
    simp only
    rw [hbefore.setValue_last]
    exact hr

end Elements

/-! ### Elements -/

/-- A string among strings. -/
theorem readsElement_string (d : DoubleText) (s : Blob) :
    ReadsElement d .string .strings (quoted s) (some s) := by
  intro rest _
  refine ⟨quoteChar, transformToEscapeSequence s ++ quoteChar :: rest, ?_, rfl, ?_⟩
  · unfold quoted
    rw [List.cons_append, List.append_assoc]
    rfl
  · unfold readElement
    simp only
    rw [matchString2_escaped]
    rfl

/-- An integer among integers is read as `int64_t`, and fails from 2^63 on. -/
theorem readsElement_integer (d : DoubleText) {v : Int} (hlow : -2 ^ 63 ≤ v) :
    ReadsElement d .numbers (.pods .int64) (integerText v)
      (if v < 2 ^ 63 then some (BitVec.ofInt _ v) else none) := by
  intro rest hends
  obtain ⟨c, tail, htext, hc⟩ := integerText_head v
  have hcons : integerText v ++ rest = c :: (tail ++ rest) := by
    rw [htext]
    rfl
  have hmatch := matchNumber2_integerText v hends
  rw [hcons] at hmatch
  refine ⟨c, tail ++ rest, hcons, ?_, ?_⟩
  · unfold modeOf
    rw [if_neg (ne_quote_of_number hc), if_pos hc]
  · unfold readElement
    simp only
    rw [hmatch]
    show ((numberElement d _).bind fun element => some (element, rest)) = _
    unfold numberElement
    rw [if_neg Bool.false_ne_true, lexicalInt64_integerText hlow]
    by_cases hv : v < 2 ^ 63
    · rw [if_pos hv]
      rfl
    · rw [if_neg hv]
      rfl

/-- A `true` or `false` among such. -/
theorem readsElement_bool (d : DoubleText) (v : Pod .bool) :
    ReadsElement d .booleans (.pods .bool) (boolText v) (some (boolRead v)) := by
  intro rest hends
  unfold boolText boolRead
  by_cases hv : v = 0
  · rw [if_pos hv, if_pos hv]
    refine ⟨102, _, rfl, rfl, ?_⟩
    unfold readElement
    simp only
    rw [show (102 :: List.append [97, 108, 115, 101] rest) = falseWord ++ rest from rfl,
      matchWord2_false hends]
    rfl
  · rw [if_neg hv, if_neg hv]
    refine ⟨116, _, rfl, rfl, ?_⟩
    unfold readElement
    simp only
    rw [show (116 :: List.append [114, 117, 101] rest) = trueWord ++ rest from rfl,
      matchWord2_true hends]
    rfl

theorem insertNextValue_pods {t : PodType} (vs ws : List (Pod t)) :
    insertNextValue (.pods t vs) (.pods t ws) = some (.pods t (vs ++ ws)) := dif_pos rfl

section Sections

variable {d : DoubleText} {entries s : Section} {name : Blob}

/-- The first section of an array of sections. -/
theorem SectionReads.first (h : SectionReads d entries) (indent : Nat) (hbefore : Before s name) :
    FirstReads d s name .sections .objects (braced indent (dumpEntries d (indent + 1) entries))
      (asJsonEntries entries) := by
  intro rest r _ hr
  have hchild := h indent rest
  have hturn : ∀ tail, RunHandler.turn d ⟨s, name, .wonderArray, .undifined⟩ leftBrace tail =
      .opens [] fun child => RunHandler.setArray ⟨s, name, .wonderArray, .undifined⟩
        (.objects [child]) .sections := fun _ => rfl
  cases hread : asJsonEntries entries with
  | none =>
    rw [hread] at hr hchild
    rw [show r = none from hr]
    exact Reads.opens_throws (hturn _) hchild
  | some found =>
    rw [hread] at hr hchild
    refine Reads.opens (hturn _) hchild ?_
    unfold RunHandler.setArray
    simp only
    rw [hbefore.setValue]
    exact hr

/-- A further section of an array of sections. -/
theorem SectionReads.next (h : SectionReads d entries) (indent : Nat) (hbefore : Before s name) :
    NextReads d s name .sections .objects (braced indent (dumpEntries d (indent + 1) entries))
      (asJsonEntries entries) := by
  intro ss rest r _ hr
  have hchild := h indent rest
  have harray : RunHandler.hArray
      ⟨s ++ [(name, .array (.objects ss))], name, .arrayWaitingValue, .sections⟩ =
      some (.objects ss) := by
    unfold RunHandler.hArray
    simp only
    rw [hbefore.find_last]
  have hturn : ∀ tail, RunHandler.turn d
      ⟨s ++ [(name, .array (.objects ss))], name, .arrayWaitingValue, .sections⟩ leftBrace tail =
      .opens [] fun child => RunHandler.setArray
        ⟨s ++ [(name, .array (.objects ss))], name, .arrayWaitingValue, .sections⟩
        (.objects (ss ++ [child])) .sections := by
    intro tail
    unfold RunHandler.turn RunHandler.nextElement
    rw [harray]
    rfl
  cases hread : asJsonEntries entries with
  | none =>
    rw [hread] at hr hchild
    rw [show r = none from hr]
    exact Reads.opens_throws (hturn _) hchild
  | some found =>
    rw [hread] at hr hchild
    refine Reads.opens (hturn _) hchild ?_
    unfold RunHandler.setArray
    simp only
    rw [hbefore.setValue_last]
    exact hr

/-- A section under a name. -/
theorem SectionReads.entry (h : SectionReads d entries) : EntryReads d (.object entries) := by
  intro indent s name rest r hbefore _ hr
  have hchild := h indent rest
  have hturn : ∀ tail, RunHandler.turn d ⟨s, name, .wonderAfterSeparator, .undifined⟩ leftBrace
      tail = .opens [] fun child => RunHandler.setEntry
        ⟨s, name, .wonderAfterSeparator, .undifined⟩ (.object child) := by
    intro tail
    show Turn.opens (childSection (findStorageEntry name s)) _ = _
    rw [hbefore.find]
    rfl
  unfold dumpEntry
  unfold asJson at hr
  cases hread : asJsonEntries entries with
  | none =>
    rw [hread] at hr hchild
    rw [show r = none from hr]
    exact Reads.opens_throws (hturn _) hchild
  | some found =>
    rw [hread] at hr hchild
    refine Reads.opens (hturn _) hchild ?_
    unfold RunHandler.setEntry
    simp only
    rw [hbefore.setValue]
    exact hr

end Sections

/-! ### Whole sections -/

/-- What is read of an entry keeps the names in order. -/
theorem Before.keep {s : Section} {name name' : Blob} (h : Before s name) (hlt : name < name')
    (e : Option StorageEntry) : Before (keep s name e) name' := by
  intro pair hpair
  rcases List.mem_append.1 hpair with hold | hnew
  · exact List.lt_trans (h pair hold) hlt
  · obtain ⟨e, -, rfl⟩ := List.mem_map.1 hnew
    exact hlt

/-- The closing brace on a line of its own. -/
theorem reads_closing {d : DoubleText} {h : RunHandler} (indent : Nat) {rest : Blob}
    (hstate : h.state = .lookupForName ∨ h.state = .wonderAfterValue) :
    Reads d h (endLine ++ (makeIndent indent ++ rightBrace :: rest))
      (some (h.currentSection, some rest)) := by
  refine reads_blanks hstate (fun _ => blank_endLine) (reads_blanks hstate
    (fun _ => blank_makeIndent) (Reads.returns ?_))
  unfold RunHandler.turn
  rcases hstate with hstate | hstate
  · rw [hstate]
    rfl
  · rw [hstate]
    rfl

/-- A name with what belongs to it. -/
theorem reads_name {d : DoubleText} {h : RunHandler} {name : Blob} {indent : Nat} {value : Blob}
    {r : Option (Section × Option Blob)} (hstate : h.state = .lookupForName)
    (hr : Reads d { h with name := name, state := .wonderAfterSeparator } value r) :
    Reads d h (makeIndent indent ++ (quoted name ++ colonChar :: 32 :: value)) r := by
  refine reads_blanks (.inl hstate) (fun _ => blank_makeIndent) ?_
  have htext : quoted name ++ colonChar :: 32 :: value =
      quoteChar :: (transformToEscapeSequence name ++ quoteChar :: colonChar :: 32 :: value) := by
    unfold quoted
    rw [List.cons_append, List.append_assoc]
    rfl
  have hname : h.turn d quoteChar
      (transformToEscapeSequence name ++ quoteChar :: colonChar :: 32 :: value) =
      .goesOn { h with name := name, state := .waitingSeparator } (colonChar :: 32 :: value) := by
    unfold RunHandler.turn
    rw [hstate]
    simp only
    rw [if_pos trivial, matchString2_escaped]
    rfl
  rw [htext]
  refine Reads.goesOn hname (Reads.goesOn rfl (Reads.goesOn ?_ hr))
  rfl

/-- The entries of a section, from the first name or behind a comma. -/
theorem reads_entries {d : DoubleText} {entries : Section} (hsorted : Sorted entries)
    (hentries : ∀ pair ∈ entries, EntryReads d pair.2) (indent close : Nat) (rest : Blob)
    {s : Section} {name : Blob} (hbefore : ∀ pair ∈ entries, Before s pair.1) :
    Reads d ⟨s, name, .lookupForName, .undifined⟩
      (endLine ++ (dumpEntries d indent entries ++ (makeIndent close ++ rightBrace :: rest)))
      ((asJsonEntries entries).map fun found => (s ++ found, some rest)) := by
  induction entries generalizing s name with
  | nil =>
    show Reads d ⟨s, name, .lookupForName, .undifined⟩ _ (some (s ++ [], some rest))
    rw [List.append_nil]
    exact reads_closing close (.inl rfl)
  | cons head entries ih =>
    obtain ⟨name', e⟩ := head
    obtain ⟨hlt, hsorted⟩ := List.pairwise_cons.1 hsorted
    obtain ⟨he, hentries⟩ := List.forall_mem_cons.1 hentries
    obtain ⟨hhead, hbefore⟩ := List.forall_mem_cons.1 hbefore
    -- what stands behind the entry
    have hbehind : ∃ behind, Ends behind ∧
        dumpEntries d indent ((name', e) :: entries) ++ (makeIndent close ++ rightBrace :: rest) =
          makeIndent indent ++
            (quoted name' ++ colonChar :: 32 :: (dumpEntry d indent e ++ behind)) ∧
        ∀ found, Reads d ⟨keep s name' found, name', .wonderAfterValue, .undifined⟩ behind
          ((asJsonEntries entries).map fun more => (keep s name' found ++ more, some rest)) := by
      cases entries with
      | nil =>
        refine ⟨endLine ++ (makeIndent close ++ rightBrace :: rest), ⟨13, _, rfl, .inr (.inl rfl)⟩,
          ?_, fun found => ?_⟩
        · simp only [dumpEntries, List.isEmpty_nil, if_true, List.append_assoc, List.cons_append,
            List.nil_append, List.append_nil]
        · show Reads d ⟨keep s name' found, name', .wonderAfterValue, .undifined⟩ _
            (some (keep s name' found ++ [], some rest))
          rw [List.append_nil]
          exact reads_closing close (.inr rfl)
      | cons next entries =>
        refine ⟨commaChar :: (endLine ++ (dumpEntries d indent (next :: entries) ++
          (makeIndent close ++ rightBrace :: rest))), ⟨commaChar, _, rfl, .inl rfl⟩, ?_,
          fun found => ?_⟩
        · rw [dumpEntries]
          simp only [List.isEmpty_cons, List.append_assoc, List.cons_append, List.nil_append,
            Bool.false_eq_true, if_false]
        · refine Reads.goesOn rfl (ih hsorted hentries fun pair hpair => ?_)
          exact hhead.keep (hlt pair hpair) found
    obtain ⟨behind, hends, htext, hmore⟩ := hbehind
    rw [htext]
    refine reads_blanks (.inl rfl) (fun _ => blank_endLine) (reads_name rfl ?_)
    refine he indent s name' behind _ hhead hends ?_
    unfold asJsonEntries
    cases hread : asJson e with
    | none => rfl
    | some found =>
      have hfound := hmore found
      cases hentries : asJsonEntries entries with
      | none =>
        rw [hentries] at hfound
        exact hfound
      | some more =>
        rw [hentries] at hfound
        have happend : keep s name' found ++ more =
            s ++ (found.toList.map (name', ·) ++ more) := List.append_assoc ..
        rw [Option.map_some, happend] at hfound
        exact hfound

/-- A section is read entry by entry, and its names come in order: by induction along the entries.
-/
theorem reads_section {d : DoubleText} {entries : Section} (hsorted : Sorted entries)
    (hentries : ∀ pair ∈ entries, EntryReads d pair.2) : SectionReads d entries := by
  intro indent rest
  have htext : braced indent (dumpEntries d (indent + 1) entries) ++ rest =
      leftBrace :: (endLine ++ (dumpEntries d (indent + 1) entries ++
        (makeIndent indent ++ rightBrace :: rest))) := by
    unfold braced
    simp only [List.append_assoc, List.cons_append, List.nil_append]
  rw [htext]
  refine Reads.goesOn rfl ?_
  exact reads_entries hsorted hentries (indent + 1) indent rest
    fun _ _ _ h => absurd h List.not_mem_nil

end DarknetSpace.PortableStorage
