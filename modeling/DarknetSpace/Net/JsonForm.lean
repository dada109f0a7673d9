import DarknetSpace.Format.Json
import DarknetSpace.Net.Messages

/-!
# What JSON leaves of a storage

A storage has ten types of numbers and JSON has one. What is read of a storage that
was written as JSON is `asJson` of it: the integers in the two wide types, a `bool` as
zero or one, and nothing of an array that was empty. An array with an integer from
2^63 on cannot be read back, nor an array of arrays; `asJson_eq_none_iff` says that
these are all.

`Ordinary` says of a storage that its sections are maps, so that they are written in the
order of their names, and that there are no doubles in it, whose text is up to the
stream.

The reader fills a section name by name, in the order of the text, which for a sorted
section is the order of the names. `Before` says that a name comes behind all there
is, so that `setValue` only appends. The last part is about single values:
`EntryReads` says that an entry is read under any name as `asJson` has it, and strings,
integers and `bool`s do.
-/

namespace DarknetSpace.PortableStorage

/-! ## What is left of a storage -/

/-- A byte that is not zero is `true`, and `true` is one. -/
def boolRead (v : Pod .bool) : Pod .bool := if v = 0 then 0 else 1

/-- An integer under a name: signed if it is negative. -/
def asJsonPod : (t : PodType) → Pod t → StorageEntry
  | .bool, v => .pod .bool (boolRead v)
  | t, v =>
    if t.value v < 0 then .pod .int64 (BitVec.ofInt _ (t.value v))
    else .pod .uint64 (BitVec.ofInt _ (t.value v))

/-- An integer in an array. -/
def asJsonElement (t : PodType) (v : Pod t) : Option (Pod .int64) :=
  if t.value v < 2 ^ 63 then some (BitVec.ofInt _ (t.value v)) else none

/-- An array of nothing is not kept. -/
def arrayOf {β : Type} (build : List β → ArrayEntry) : List β → Option ArrayEntry
  | [] => none
  | y :: ys => some (build (y :: ys))

def asJsonPods : (t : PodType) → List (Pod t) → Option (Option ArrayEntry)
  | .bool, vs => (vs.mapM fun v => some (boolRead v)).map (arrayOf (.pods .bool))
  | t, vs => (vs.mapM (asJsonElement t)).map (arrayOf (.pods .int64))

mutual

/-- What is read of an entry that was written: `none` if reading throws, `some none` if nothing is
set. -/
def asJson : StorageEntry → Option (Option StorageEntry)
  | .pod t v => some (some (asJsonPod t v))
  | .string s => some (some (.string s))
  | .object entries => (asJsonEntries entries).map fun s => some (.object s)
  | .array a => (asJsonArray a).map fun a => a.map .array

/-- What is read of an array: `some none` where the array was empty, `none` where reading fails. -/
def asJsonArray : ArrayEntry → Option (Option ArrayEntry)
  | .pods t vs => asJsonPods t vs
  | .strings ss => (ss.mapM some).map (arrayOf .strings)
  | .objects ss => (asJsonObjects ss).map (arrayOf .objects)
  | .arrays [] => some none
  | .arrays (_ :: _) => none

/-- What is read of the entries of a section. Those that leave nothing leave no name either. -/
def asJsonEntries : List (Blob × StorageEntry) → Option (List (Blob × StorageEntry))
  | [] => some []
  | (name, e) :: entries => do
    let e ← asJson e
    let entries ← asJsonEntries entries
    some (e.toList.map (name, ·) ++ entries)

/-- What is read of the sections of an array; an empty section stays one. -/
def asJsonObjects : List (List (Blob × StorageEntry)) → Option (List (List (Blob × StorageEntry)))
  | [] => some []
  | s :: ss => do
    let s ← asJsonEntries s
    let ss ← asJsonObjects ss
    some (s :: ss)

end

mutual

/-- The sections are maps, and there is no `double`. -/
def Ordinary : StorageEntry → Prop
  | .pod t _ => t ≠ .double
  | .string _ => True
  | .object entries => Sorted entries ∧ OrdinaryEntries entries
  | .array a => OrdinaryArray a

/-- An array without floating-point numbers. -/
def OrdinaryArray : ArrayEntry → Prop
  | .pods t _ => t ≠ .double
  | .strings _ => True
  | .objects ss => OrdinaryObjects ss
  | .arrays _ => True

/-- Entries without floating-point numbers, sections within them sorted by name. -/
def OrdinaryEntries : List (Blob × StorageEntry) → Prop
  | [] => True
  | (_, e) :: entries => Ordinary e ∧ OrdinaryEntries entries

/-- Sections without floating-point numbers, sorted by name. -/
def OrdinaryObjects : List (List (Blob × StorageEntry)) → Prop
  | [] => True
  | s :: ss => (Sorted s ∧ OrdinaryEntries s) ∧ OrdinaryObjects ss

end

mutual

/-- Somewhere in it an array holds an integer from `2 ^ 63` on, or another array. -/
def Unreadable : StorageEntry → Prop
  | .pod _ _ | .string _ => False
  | .object entries => UnreadableEntries entries
  | .array a => UnreadableArray a

/-- An array with an integer from 2^63 on, with such an array in one of its sections, or with arrays
in it. -/
def UnreadableArray : ArrayEntry → Prop
  | .pods t vs => t ≠ .bool ∧ ∃ v ∈ vs, 2 ^ 63 ≤ t.value v
  | .strings _ => False
  | .objects ss => UnreadableObjects ss
  | .arrays as => as ≠ []

/-- One of the entries cannot be read back. -/
def UnreadableEntries : List (Blob × StorageEntry) → Prop
  | [] => False
  | (_, e) :: entries => Unreadable e ∨ UnreadableEntries entries

/-- One of the sections cannot be read back. -/
def UnreadableObjects : List (List (Blob × StorageEntry)) → Prop
  | [] => False
  | s :: ss => UnreadableEntries s ∨ UnreadableObjects ss

end

/-- A list of fallible computations fails when one of them does. -/
theorem mapM_eq_none_iff {β γ : Type} {f : β → Option γ} {xs : List β} :
    xs.mapM f = none ↔ ∃ x ∈ xs, f x = none := by
  induction xs with
  | nil => simp
  | cons x xs ih =>
    rw [List.mapM_cons, List.exists_mem_cons_iff, ← ih]
    cases f x <;> cases xs.mapM f <;> simp

/-- Reading an array of integers fails at one from 2^63 on, as the elements are read as `int64_t`.
-/
theorem asJsonPods_eq_none_iff (t : PodType) (vs : List (Pod t)) :
    asJsonPods t vs = none ↔ t ≠ .bool ∧ ∃ v ∈ vs, 2 ^ 63 ≤ t.value v := by
  have hints : vs.mapM (asJsonElement t) = none ↔ ∃ v ∈ vs, 2 ^ 63 ≤ t.value v := by
    rw [mapM_eq_none_iff]
    unfold asJsonElement
    simp only [ite_eq_right_iff, reduceCtorEq, imp_false, Int.not_lt]
  cases t with
  | bool =>
    unfold asJsonPods
    simp [mapM_eq_none_iff]
  | _ =>
    unfold asJsonPods
    simp [hints]

mutual

/-- Reading throws exactly at such an array. -/
theorem asJson_eq_none_iff : (e : StorageEntry) → (asJson e = none ↔ Unreadable e)
  | .pod t v => by simp [asJson, Unreadable]
  | .string s => by simp [asJson, Unreadable]
  | .object entries => by
    rw [asJson, Option.map_eq_none_iff, asJsonEntries_eq_none_iff entries, Unreadable]
  | .array a => by
    rw [asJson, Option.map_eq_none_iff, asJsonArray_eq_none_iff a, Unreadable]

/-- Arrays, one case for each kind. -/
theorem asJsonArray_eq_none_iff : (a : ArrayEntry) → (asJsonArray a = none ↔ UnreadableArray a)
  | .pods t vs => by rw [asJsonArray, asJsonPods_eq_none_iff, UnreadableArray]
  | .strings ss => by simp [asJsonArray, UnreadableArray, mapM_eq_none_iff]
  | .objects ss => by
    rw [asJsonArray, Option.map_eq_none_iff, asJsonObjects_eq_none_iff ss, UnreadableArray]
  | .arrays [] => by simp [asJsonArray, UnreadableArray]
  | .arrays (_ :: _) => by simp [asJsonArray, UnreadableArray]

theorem asJsonEntries_eq_none_iff :
    (entries : List (Blob × StorageEntry)) → (asJsonEntries entries = none ↔ UnreadableEntries entries)
  | [] => by simp [asJsonEntries, UnreadableEntries]
  | (name, e) :: entries => by
    rw [UnreadableEntries, ← asJson_eq_none_iff e, ← asJsonEntries_eq_none_iff entries, asJsonEntries]
    cases asJson e <;> cases asJsonEntries entries <;> simp

theorem asJsonObjects_eq_none_iff : (ss : List (List (Blob × StorageEntry))) →
    (asJsonObjects ss = none ↔ UnreadableObjects ss)
  | [] => by simp [asJsonObjects, UnreadableObjects]
  | s :: ss => by
    rw [UnreadableObjects, ← asJsonEntries_eq_none_iff s, ← asJsonObjects_eq_none_iff ss, asJsonObjects]
    cases asJsonEntries s <;> cases asJsonObjects ss <;> simp

end

/-! ## A section that grows -/

/-- Every name there is comes before this one. -/
def Before (s : Section) (name : Blob) : Prop := ∀ pair ∈ s, pair.1 < name

/-- A name behind all names of a section is not in it. -/
theorem Before.find {s : Section} {name : Blob} (h : Before s name) :
    findStorageEntry name s = none := by
  induction s with
  | nil => rfl
  | cons pair s ih =>
    obtain ⟨hlt, hs⟩ := List.forall_mem_cons.1 h
    have hne : pair.1 ≠ name := fun heq => List.lt_irrefl name (heq ▸ hlt)
    unfold findStorageEntry
    rw [if_neg hne]
    exact ih hs

theorem Before.setValue {s : Section} {name : Blob} (h : Before s name) (e : StorageEntry) :
    setValue name e s = s ++ [(name, e)] := by
  unfold PortableStorage.setValue
  rw [h.find]
  exact insertEntry_last h

theorem Before.find_last {s : Section} {name : Blob} (h : Before s name) (e : StorageEntry) :
    findStorageEntry name (s ++ [(name, e)]) = some e := by
  rw [← h.setValue, find_setValue, if_pos rfl]

/-- The entry at the end can be put again. -/
theorem Before.setValue_last {s : Section} {name : Blob} (h : Before s name) (e e' : StorageEntry) :
    PortableStorage.setValue name e' (s ++ [(name, e)]) = s ++ [(name, e')] := by
  unfold PortableStorage.setValue
  rw [h.find_last]
  show (s ++ [(name, e)]).map _ = _
  rw [List.map_append]
  congr 1
  · refine (List.map_congr_left fun pair hpair => if_neg ?_).trans (List.map_id s)
    exact fun heq => List.lt_irrefl name (heq ▸ h pair hpair)
  · show [if name = name then (name, e') else (name, e)] = _
    rw [if_pos rfl]

/-- The section with what was read under the name. -/
def keep (s : Section) (name : Blob) (e : Option StorageEntry) : Section :=
  s ++ e.toList.map (name, ·)

/-! ## Reading what was written -/

/-- Reading throws, or goes on with what it has found. -/
def GoesOn {α : Type} (d : DoubleText) (found : Option α) (next : α → RunHandler) (rest : Blob)
    (r : Option (Section × Option Blob)) : Prop :=
  match found with
  | none => r = none
  | some a => Reads d (next a) rest r

/-- Where an entry has been written it is read. -/
def EntryReads (d : DoubleText) (e : StorageEntry) : Prop :=
  ∀ indent s name rest r, Before s name → Ends rest →
    GoesOn d (asJson e) (fun e => ⟨keep s name e, name, .wonderAfterValue, .undifined⟩) rest r →
    Reads d ⟨s, name, .wonderAfterSeparator, .undifined⟩ (dumpEntry d indent e ++ rest) r

/-- Reading the text of a section gives what `asJsonEntries` says, or fails where that is `none`. -/
def SectionReads (d : DoubleText) (entries : Section) : Prop :=
  ∀ indent rest, Reads d (.start []) (braced indent (dumpEntries d (indent + 1) entries) ++ rest)
    ((asJsonEntries entries).map fun s => (s, some rest))

theorem isSpace_blank {c : UInt8} (h : c = 32 ∨ c = 13 ∨ c = 10) : isSpace c = true := by
  rcases h with rfl | rfl | rfl <;> rfl

/-- Spaces are skipped where a name or the end of a value is looked for. -/
theorem reads_blanks {d : DoubleText} {h : RunHandler} {blanks rest : Blob}
    {r : Option (Section × Option Blob)}
    (hstate : h.state = .lookupForName ∨ h.state = .wonderAfterValue)
    (hblanks : ∀ c ∈ blanks, c = 32 ∨ c = 13 ∨ c = 10) (hr : Reads d h rest r) :
    Reads d h (blanks ++ rest) r := by
  induction blanks with
  | nil => exact hr
  | cons c blanks ih =>
    obtain ⟨hc, hblanks⟩ := List.forall_mem_cons.1 hblanks
    have hspace : checkIsspace h c (blanks ++ rest) = .goesOn h (blanks ++ rest) :=
      if_pos (isSpace_blank hc)
    have hquote : c ≠ quoteChar := by rcases hc with rfl | rfl | rfl <;> decide
    have hcomma : c ≠ commaChar := by rcases hc with rfl | rfl | rfl <;> decide
    have hbrace : c ≠ rightBrace := by rcases hc with rfl | rfl | rfl <;> decide
    show Reads d h (c :: (blanks ++ rest)) r
    refine Reads.goesOn ?_ (ih hblanks)
    unfold RunHandler.turn
    rcases hstate with hstate | hstate
    · rw [hstate]
      simp only
      rw [if_neg hquote, if_neg hbrace, hspace]
    · rw [hstate]
      simp only
      rw [if_neg hcomma, if_neg hbrace, hspace]

theorem blank_endLine {c : UInt8} (h : c ∈ endLine) : c = 32 ∨ c = 13 ∨ c = 10 := by
  rcases List.mem_cons.1 h with rfl | h
  · exact .inr (.inl rfl)
  · exact .inr (.inr (List.mem_singleton.1 h))

theorem blank_makeIndent {indent : Nat} {c : UInt8} (h : c ∈ makeIndent indent) :
    c = 32 ∨ c = 13 ∨ c = 10 :=
  .inl (List.eq_of_mem_replicate h)

/-! ### Values under a name -/

/-- A value under a name: the text begins with a character that says its kind, and the value is put
under the name once it is read. -/
theorem reads_named {d : DoubleText} {s : Section} {name text tail rest : Blob} {c : UInt8}
    {e : StorageEntry} {r : Option (Section × Option Blob)} (hbefore : Before s name)
    (htext : text = c :: tail)
    (hturn : RunHandler.namedValue d ⟨s, name, .wonderAfterSeparator, .undifined⟩ c tail =
      .goesOn (RunHandler.setEntry ⟨s, name, .wonderAfterSeparator, .undifined⟩ e) rest)
    (hr : Reads d ⟨s ++ [(name, e)], name, .wonderAfterValue, .undifined⟩ rest r) :
    Reads d ⟨s, name, .wonderAfterSeparator, .undifined⟩ text r := by
  rw [htext]
  refine Reads.goesOn hturn ?_
  unfold RunHandler.setEntry
  simp only
  rw [hbefore.setValue]
  exact hr

/-- A quoted string is read back as it was. -/
theorem reads_string {d : DoubleText} (s : Blob) : EntryReads d (.string s) := by
  intro indent sec name rest r hbefore _ hr
  have htext : quoted s ++ rest =
      quoteChar :: (transformToEscapeSequence s ++ quoteChar :: rest) := by
    unfold quoted
    rw [List.cons_append, List.append_assoc]
    rfl
  refine reads_named hbefore htext ?_ hr
  unfold RunHandler.namedValue
  rw [if_pos rfl, matchString2_escaped]
  rfl

/-- The text of an integer begins with a digit or a minus sign. -/
theorem integerText_head (v : Int) :
    ∃ c tail, integerText v = c :: tail ∧ (isDigit c = true ∨ c = minusChar) := by
  obtain ⟨hdigits, hne, -⟩ := decimalText_spec v.natAbs
  unfold integerText
  by_cases hv : v < 0
  · rw [if_pos hv]
    exact ⟨minusChar, _, rfl, .inr rfl⟩
  · rw [if_neg hv]
    cases htext : decimalText v.natAbs with
    | nil => exact absurd htext hne
    | cons c tail =>
      rw [htext] at hdigits
      exact ⟨c, tail, rfl, .inl (hdigits c (List.mem_cons_self ..))⟩

theorem ne_quote_of_number {c : UInt8} (h : isDigit c = true ∨ c = minusChar) : c ≠ quoteChar := by
  rintro rfl
  exact absurd h (by decide)

/-- An integer in the range of the two wide types. -/
theorem reads_integer {d : DoubleText} {v : Int} (hlow : -2 ^ 63 ≤ v) (hhigh : v < 2 ^ 64)
    {s : Section} {name rest : Blob} {r : Option (Section × Option Blob)} (hbefore : Before s name)
    (hends : Ends rest)
    (hr : Reads d ⟨s ++ [(name, if v < 0 then .pod .int64 (BitVec.ofInt _ v)
      else .pod .uint64 (BitVec.ofInt _ v))], name, .wonderAfterValue, .undifined⟩ rest r) :
    Reads d ⟨s, name, .wonderAfterSeparator, .undifined⟩ (integerText v ++ rest) r := by
  obtain ⟨c, tail, htext, hc⟩ := integerText_head v
  have hcons : integerText v ++ rest = c :: (tail ++ rest) := by
    rw [htext]
    rfl
  have hmatch := matchNumber2_integerText v hends
  rw [hcons] at hmatch
  refine reads_named hbefore hcons ?_ hr
  have hentry : numberEntry d ⟨integerText v, false, decide (v < 0)⟩ =
      some (if v < 0 then .pod .int64 (BitVec.ofInt _ v) else .pod .uint64 (BitVec.ofInt _ v)) := by
    unfold numberEntry
    by_cases hneg : v < 0
    · rw [if_neg Bool.false_ne_true, if_pos (decide_eq_true hneg), if_pos hneg,
        lexicalInt64_integerText hlow, if_pos (by omega)]
      rfl
    · rw [if_neg Bool.false_ne_true, if_neg (by simpa using hneg), if_neg hneg,
        lexicalUint64_integerText (by omega) hhigh]
      rfl
  unfold RunHandler.namedValue
  rw [if_neg (ne_quote_of_number hc), if_pos hc, hmatch]
  simp only
  rw [hentry]

/-- A word of letters that is not `null`. -/
theorem reads_bool {d : DoubleText} (v : Pod .bool) {s : Section} {name rest : Blob}
    {r : Option (Section × Option Blob)} (hbefore : Before s name) (hends : Ends rest)
    (hr : Reads d ⟨s ++ [(name, .pod .bool (boolRead v))], name, .wonderAfterValue, .undifined⟩
      rest r) :
    Reads d ⟨s, name, .wonderAfterSeparator, .undifined⟩ (boolText v ++ rest) r := by
  unfold boolText
  unfold boolRead at hr
  by_cases hv : v = 0
  · rw [if_pos hv] at hr ⊢
    refine reads_named hbefore rfl ?_ hr
    unfold RunHandler.namedValue
    rw [if_neg (by decide), if_neg (by decide), if_pos (by decide)]
    unfold RunHandler.namedWord
    rw [show (102 :: List.append [97, 108, 115, 101] rest) = falseWord ++ rest from rfl,
      matchWord2_false hends]
    rfl
  · rw [if_neg hv] at hr ⊢
    refine reads_named hbefore rfl ?_ hr
    unfold RunHandler.namedValue
    rw [if_neg (by decide), if_neg (by decide), if_pos (by decide)]
    unfold RunHandler.namedWord
    rw [show (116 :: List.append [114, 117, 101] rest) = trueWord ++ rest from rfl,
      matchWord2_true hends]
    rfl

end DarknetSpace.PortableStorage
