import DarknetSpace.Net.JsonRead

/-!
# There and back as JSON

Any entry can be read that is ordinary (`reads_entry`), by induction over entries,
arrays and sections at once: the cases are those of `JsonForm` and `JsonRead`. So a
storage that was written comes back as `asJson` of it, and one that cannot be read has
something in it that `asJson` has no form for (`loadFromJson_dumpAsJson`).

What comes back is ordinary again, and has settled: the integers are wide, each `bool`
is zero or one, and the empty arrays are gone, so the second time nothing changes any
more (`asJson_settled`).

Main result: `json_trips`, both of these in one statement about any ordinary root, any
indent and any text behind it.
-/

namespace DarknetSpace.PortableStorage

/-! ### Every entry -/

theorem podText_integer {d : DoubleText} {t : PodType} (hdouble : t ≠ .double) (hbool : t ≠ .bool)
    (v : Pod t) : podText d t v = integerText (t.value v) := by
  cases t <;> first | exact absurd rfl hdouble | exact absurd rfl hbool | rfl

theorem asJsonPod_integer {t : PodType} (hbool : t ≠ .bool) (v : Pod t) :
    asJsonPod t v = if t.value v < 0 then .pod .int64 (BitVec.ofInt _ (t.value v))
      else .pod .uint64 (BitVec.ofInt _ (t.value v)) := by
  cases t <;> first | exact absurd rfl hbool | rfl

/-- An array of integers is read as one of `int64_t`. -/
theorem asJsonPods_integer {t : PodType} (hbool : t ≠ .bool) (vs : List (Pod t)) :
    asJsonPods t vs = (vs.mapM (asJsonElement t)).map (arrayOf (.pods .int64)) := by
  cases t <;> first | exact absurd rfl hbool | rfl

/-- No integer is beyond the two wide types. -/
theorem value_range (t : PodType) (v : Pod t) : -2 ^ 63 ≤ t.value v ∧ t.value v < 2 ^ 64 := by
  have hpow : 2 ^ (8 * t.size) ≤ 2 ^ 64 := Nat.pow_le_pow_right (by decide) (by cases t <;> decide)
  unfold PodType.value
  by_cases hsigned : t.isSigned
  · rw [if_pos hsigned]
    have hlow := BitVec.le_two_mul_toInt (x := v)
    have hhigh := BitVec.two_mul_toInt_lt (x := v)
    have hcast : ((2 ^ (8 * t.size) : Nat) : Int) ≤ 2 ^ 64 := by exact_mod_cast hpow
    push_cast at hcast
    constructor <;> omega
  · rw [if_neg hsigned]
    have := v.isLt
    constructor <;> omega

/-- A number or a truth value under a name. -/
theorem reads_pod {d : DoubleText} {t : PodType} (hdouble : t ≠ .double) (v : Pod t) :
    EntryReads d (.pod t v) := by
  intro indent s name rest r hbefore hends hr
  by_cases hbool : t = .bool
  · subst hbool
    exact reads_bool v hbefore hends hr
  · obtain ⟨hlow, hhigh⟩ := value_range t v
    unfold asJson at hr
    rw [asJsonPod_integer hbool] at hr
    unfold dumpEntry
    rw [podText_integer hdouble hbool]
    exact reads_integer hlow hhigh hbefore hends hr

/-- An array of numbers or truth values under a name. -/
theorem reads_pods {d : DoubleText} {t : PodType} (hdouble : t ≠ .double) (vs : List (Pod t)) :
    EntryReads d (.array (.pods t vs)) := by
  intro indent s name rest r hbefore _ hr
  unfold asJson asJsonArray at hr
  unfold dumpEntry dumpArray
  by_cases hbool : t = .bool
  · subst hbool
    exact reads_array
      (fun v _ => (readsElement_bool d v).first hbefore)
      (fun v _ => (readsElement_bool d v).next hbefore fun ys y => insertNextValue_pods ys [y]) hr
  · have hread : ∀ v : Pod t,
        ReadsElement d .numbers (.pods .int64) (podText d t v) (asJsonElement t v) := by
      intro v
      rw [podText_integer hdouble hbool]
      exact readsElement_integer d (value_range t v).1
    rw [asJsonPods_integer hbool] at hr
    exact reads_array (fun v _ => (hread v).first hbefore)
      (fun v _ => (hread v).next hbefore fun ys y => insertNextValue_pods ys [y]) hr

theorem reads_strings {d : DoubleText} (ss : List Blob) : EntryReads d (.array (.strings ss)) := by
  intro indent s name rest r hbefore _ hr
  exact reads_array (fun x _ => (readsElement_string d x).first hbefore)
    (fun x _ => (readsElement_string d x).next hbefore fun _ _ => rfl) hr

/-- The sections of an array are written one by one. -/
theorem dumpObjects_eq (d : DoubleText) (indent : Nat) (ss : List Section) :
    dumpObjects d indent ss = ss.map fun s => braced indent (dumpEntries d (indent + 1) s) := by
  induction ss with
  | nil => rfl
  | cons s ss ih =>
    unfold dumpObjects
    rw [ih]
    rfl

/-- And read one by one. -/
theorem asJsonObjects_eq (ss : List Section) : asJsonObjects ss = ss.mapM asJsonEntries := by
  induction ss with
  | nil => rfl
  | cons s ss ih =>
    unfold asJsonObjects
    rw [List.mapM_cons, ih]
    rfl

/-- An array of sections under a name. -/
theorem reads_objects {d : DoubleText} {ss : List Section} (h : ∀ s ∈ ss, SectionReads d s) :
    EntryReads d (.array (.objects ss)) := by
  intro indent s name rest r hbefore _ hr
  unfold asJson asJsonArray at hr
  rw [asJsonObjects_eq] at hr
  unfold dumpEntry dumpArray
  rw [dumpObjects_eq]
  exact reads_array (fun x hx => (h x hx).first indent hbefore)
    (fun x hx => (h x hx).next indent hbefore) hr

/-- Nothing can be read of an array of arrays, unless there is nothing in it. -/
theorem reads_arrays {d : DoubleText} (as : List ArrayEntry) :
    EntryReads d (.array (.arrays as)) := by
  intro indent s name rest r hbefore _ hr
  cases as with
  | nil =>
    have hr : Reads d ⟨s ++ [], name, .wonderAfterValue, .undifined⟩ rest r := hr
    rw [List.append_nil] at hr
    exact Reads.goesOn rfl (Reads.goesOn rfl hr)
  | cons a as =>
    have hopens : ∃ tail, dumpArray d indent a = leftBracket :: tail := by
      cases a <;> exact ⟨_, rfl⟩
    obtain ⟨tail, htail⟩ := hopens
    rw [show r = none from hr]
    unfold dumpEntry dumpArray dumpArrays bracketed
    rw [joined_cons, htail]
    exact Reads.goesOn rfl (Reads.throws rfl)

mutual

/-- A written entry is read as `asJson` says. -/
theorem reads_entry {d : DoubleText} : (e : StorageEntry) → Ordinary e → EntryReads d e
  | .pod _ v, h => reads_pod h v
  | .string s, _ => reads_string s
  | .object entries, h => (reads_section h.1 (reads_each entries h.2)).entry
  | .array a, h => reads_arrayEntry a h

theorem reads_arrayEntry {d : DoubleText} :
    (a : ArrayEntry) → OrdinaryArray a → EntryReads d (.array a)
  | .pods _ vs, h => reads_pods h vs
  | .strings ss, _ => reads_strings ss
  | .objects ss, h => reads_objects (reads_eachSection ss h)
  | .arrays as, _ => reads_arrays as

theorem reads_each {d : DoubleText} : (entries : List (Blob × StorageEntry)) →
    OrdinaryEntries entries → ∀ pair ∈ entries, EntryReads d pair.2
  | [], _ => fun _ h => absurd h List.not_mem_nil
  | (_, e) :: entries, h =>
    List.forall_mem_cons.2 ⟨reads_entry e h.1, reads_each entries h.2⟩

theorem reads_eachSection {d : DoubleText} : (ss : List (List (Blob × StorageEntry))) →
    OrdinaryObjects ss → ∀ s ∈ ss, SectionReads d s
  | [], _ => fun _ h => absurd h List.not_mem_nil
  | s :: ss, h =>
    List.forall_mem_cons.2 ⟨reads_section h.1.1 (reads_each s h.1.2), reads_eachSection ss h.2⟩

end

/-- Reading what was written: the integers widened, empty arrays gone, and an error exactly where
an array holds an integer from 2^63 on or another array. -/
theorem loadFromJson_dumpAsJson {d : DoubleText} {root : Section}
    (h : Ordinary (.object root)) (indent : Nat) (rest : Blob) :
    loadFromJson d (dumpAsJson d root indent ++ rest) = asJsonEntries root := by
  have hreads := reads_section (d := d) h.1 (reads_each root h.2) indent rest
  rw [dumpAsJson, loadFromJson_of_reads hreads]
  cases asJsonEntries root <;> rfl

section Assorted

/-- Doubles apart. -/
def noDoubles : DoubleText := ⟨fun _ => [], fun _ => none⟩

/-- A section with a value of most kinds. -/
def assorted : Section :=
  [([97], .pod .int16 (-5)), ([98], .object [([34], .string [92, 10])]),
    ([99], .array (.pods .uint8 [7, 200])), ([100], .array (.strings [])),
    ([101], .array (.objects [[([97], .pod .bool 2)], []]))]

/-- As it is read. -/
def assortedRead : Section :=
  [([97], .pod .int64 (-5)), ([98], .object [([34], .string [92, 10])]),
    ([99], .array (.pods .int64 [7, 200])),
    ([101], .array (.objects [[([97], .pod .bool 1)], []]))]

theorem ordinary_assorted : Ordinary (.object assorted) := by
  refine ⟨?_, nofun, ⟨List.pairwise_singleton .., trivial, trivial⟩, nofun, trivial,
    ⟨⟨List.pairwise_singleton .., nofun, trivial⟩, ⟨.nil, trivial⟩, trivial⟩, trivial⟩
  unfold Sorted assorted
  decide

/-- What is read of it. -/
theorem asJsonEntries_assorted : asJsonEntries assorted = some assortedRead := by
  have hneg : asJsonPod .int16 (-5) = .pod .int64 (-5) := by
    rw [asJsonPod_integer (t := .int16) nofun]
    exact if_pos (by decide)
  have helements : ([7, 200] : List (Pod .uint8)).mapM (asJsonElement .uint8) = some [7, 200] := by
    decide +kernel
  simp only [assorted, asJsonEntries, asJson, asJsonArray, asJsonPods, asJsonObjects, hneg,
    helements]
  rfl

example : asJsonEntries [([97], .array (.pods .uint64 [2 ^ 63]))] = none := by
  have hnone : asJsonElement .uint64 (2 ^ 63) = none := by decide +kernel
  simp only [asJsonEntries, asJson, asJsonArray, asJsonPods, mapM_cons_none [] hnone]
  rfl

end Assorted

/-! ### The second time -/

/-- An integer that fits is its own value as an `int64_t`. -/
theorem value_int64 {z : Int} (hlow : -2 ^ 63 ≤ z) (hhigh : z < 2 ^ 63) :
    PodType.value .int64 (BitVec.ofInt _ z) = z := by
  show (BitVec.ofInt 64 z).toInt = z
  rw [BitVec.toInt_ofInt]
  exact Int.bmod_eq_of_le (by omega) (by omega)

/-- An integer that fits is its own value as a `uint64_t`. -/
theorem value_uint64 {z : Int} (hlow : 0 ≤ z) (hhigh : z < 2 ^ 64) :
    PodType.value .uint64 (BitVec.ofInt _ z) = z := by
  show ((BitVec.ofInt 64 z).toNat : Int) = z
  rw [BitVec.toNat_ofInt]
  omega

/-- A truth value read once is zero or one. -/
theorem boolRead_boolRead (v : Pod .bool) : boolRead (boolRead v) = boolRead v := by
  unfold boolRead
  by_cases hv : v = 0
  · rw [if_pos hv]
    rfl
  · rw [if_neg hv]
    rfl

/-- A number that was read once is read the same again. -/
theorem asJsonPod_settled {t : PodType} (hdouble : t ≠ .double) (v : Pod t) :
    Ordinary (asJsonPod t v) ∧ asJson (asJsonPod t v) = some (some (asJsonPod t v)) := by
  by_cases hbool : t = .bool
  · subst hbool
    refine ⟨nofun, ?_⟩
    show some (some (StorageEntry.pod .bool (boolRead (boolRead v)))) = _
    rw [boolRead_boolRead]
    rfl
  · obtain ⟨hlow, hhigh⟩ := value_range t v
    rw [asJsonPod_integer hbool]
    by_cases hneg : t.value v < 0
    · have hvalue := value_int64 hlow (show t.value v < 2 ^ 63 by omega)
      rw [if_pos hneg]
      refine ⟨nofun, ?_⟩
      unfold asJson
      rw [asJsonPod_integer (t := .int64) nofun, hvalue, if_pos hneg]
    · have hvalue := value_uint64 (Int.not_lt.1 hneg) hhigh
      rw [if_neg hneg]
      refine ⟨nofun, ?_⟩
      unfold asJson
      rw [asJsonPod_integer (t := .uint64) nofun, hvalue, if_neg hneg]

/-- A list of values read once is read the same again if each is. -/
theorem mapM_fixed {α β : Type} {f : α → Option β} {g : β → Option β}
    (h : ∀ x y, f x = some y → g y = some y) {xs : List α} {ys : List β}
    (hmap : xs.mapM f = some ys) : ys.mapM g = some ys := by
  induction xs generalizing ys with
  | nil =>
    cases hmap
    rfl
  | cons x xs ih =>
    cases hx : f x with
    | none =>
      rw [mapM_cons_none xs hx] at hmap
      cases hmap
    | some y =>
      rw [mapM_cons_some xs hx] at hmap
      obtain ⟨zs, hzs, rfl⟩ := Option.map_eq_some_iff.1 hmap
      rw [mapM_cons_some _ (h x y hx), ih hzs]
      rfl

/-- An element that was read once is an `int64_t`, and is read as that. -/
theorem asJsonElement_settled {t : PodType} {v : Pod t} {w : Pod .int64}
    (h : asJsonElement t v = some w) : asJsonElement .int64 w = some w := by
  obtain ⟨hlow, -⟩ := value_range t v
  unfold asJsonElement at h ⊢
  by_cases hv : t.value v < 2 ^ 63
  · rw [if_pos hv] at h
    cases h
    rw [value_int64 hlow hv, if_pos hv]
  · rw [if_neg hv] at h
    cases h

/-- An array that left something had elements. -/
theorem arrayOf_some {β : Type} {build : List β → ArrayEntry} {found : Option (List β)}
    {a : ArrayEntry} (h : found.map (arrayOf build) = some (some a)) :
    ∃ y ys, found = some (y :: ys) ∧ a = build (y :: ys) := by
  obtain ⟨ys, hys, harray⟩ := Option.map_eq_some_iff.1 h
  cases ys with
  | nil => cases harray
  | cons y ys =>
    cases harray
    exact ⟨y, ys, hys, rfl⟩

/-- An array of numbers that was read once is read the same again. -/
theorem asJsonPods_settled {t : PodType} {vs : List (Pod t)} {a : ArrayEntry}
    (h : asJsonPods t vs = some (some a)) :
    OrdinaryArray a ∧ asJsonArray a = some (some a) := by
  by_cases hbool : t = .bool
  · subst hbool
    obtain ⟨w, ws, hws, rfl⟩ := arrayOf_some h
    refine ⟨nofun, ?_⟩
    show ((w :: ws).mapM fun v => some (boolRead v)).map (arrayOf _) = _
    rw [mapM_fixed (fun v w hw => ?_) hws]
    · rfl
    · cases hw
      rw [boolRead_boolRead]
  · rw [asJsonPods_integer hbool] at h
    obtain ⟨w, ws, hws, rfl⟩ := arrayOf_some h
    refine ⟨nofun, ?_⟩
    unfold asJsonArray
    rw [asJsonPods_integer (t := .int64) nofun,
      mapM_fixed (fun v w hw => asJsonElement_settled hw) hws]
    rfl

mutual

/-- An entry that was read once is ordinary, and is read the same again: by the structure of the
tree. -/
theorem asJson_settled : (e : StorageEntry) → Ordinary e → (e' : StorageEntry) →
    asJson e = some (some e') → Ordinary e' ∧ asJson e' = some (some e')
  | .pod t v, hordinary, e', h => by
    cases h
    exact asJsonPod_settled hordinary v
  | .string s, _, e', h => by
    cases h
    exact ⟨trivial, rfl⟩
  | .object entries, hordinary, e', h => by
    unfold asJson at h
    obtain ⟨s, hs, heq⟩ := Option.map_eq_some_iff.1 h
    cases heq
    obtain ⟨hentries, hsame, hnames⟩ := asJsonEntries_settled entries hordinary.2 s hs
    refine ⟨⟨?_, hentries⟩, ?_⟩
    · exact List.pairwise_map.1 ((List.pairwise_map.2 hordinary.1).sublist hnames)
    · unfold asJson
      rw [hsame]
      rfl
  | .array a, hordinary, e', h => by
    unfold asJson at h
    obtain ⟨a', ha, heq⟩ := Option.map_eq_some_iff.1 h
    cases a' with
    | none => cases heq
    | some a' =>
      cases heq
      obtain ⟨hordinary', hsame⟩ := asJsonArray_settled a hordinary a' ha
      refine ⟨hordinary', ?_⟩
      unfold asJson
      rw [hsame]
      rfl

/-- The same for an array. -/
theorem asJsonArray_settled : (a : ArrayEntry) → OrdinaryArray a → (a' : ArrayEntry) →
    asJsonArray a = some (some a') → OrdinaryArray a' ∧ asJsonArray a' = some (some a')
  | .pods _ _, _, _, h => asJsonPods_settled h
  | .strings ss, _, a', h => by
    obtain ⟨s, ss', hss, rfl⟩ := arrayOf_some h
    refine ⟨trivial, ?_⟩
    unfold asJsonArray
    rw [mapM_some]
    rfl
  | .objects ss, hordinary, a', h => by
    unfold asJsonArray at h
    obtain ⟨s, ss', hss, rfl⟩ := arrayOf_some h
    obtain ⟨hordinary', hsame⟩ := asJsonObjects_settled ss hordinary (s :: ss') hss
    refine ⟨hordinary', ?_⟩
    unfold asJsonArray
    rw [hsame]
    rfl
  | .arrays [], _, _, h => by cases h
  | .arrays (_ :: _), _, _, h => by cases h

/-- The same for the entries of a section. -/
theorem asJsonEntries_settled : (entries : List (Blob × StorageEntry)) → OrdinaryEntries entries →
    (s : List (Blob × StorageEntry)) → asJsonEntries entries = some s →
    OrdinaryEntries s ∧ asJsonEntries s = some s ∧
      (s.map Prod.fst).Sublist (entries.map Prod.fst)
  | [], _, s, h => by
    cases h
    exact ⟨trivial, rfl, .slnil⟩
  | (name, e) :: entries, hordinary, s, h => by
    unfold asJsonEntries at h
    obtain ⟨e', he, h⟩ := Option.bind_eq_some_iff.1 h
    obtain ⟨s', hs, h⟩ := Option.bind_eq_some_iff.1 h
    cases h
    obtain ⟨hentries, hsame, hnames⟩ := asJsonEntries_settled entries hordinary.2 s' hs
    cases e' with
    | none => exact ⟨hentries, hsame, hnames.cons _⟩
    | some e' =>
      obtain ⟨hordinary', he'⟩ := asJson_settled e hordinary.1 e' he
      refine ⟨⟨hordinary', hentries⟩, ?_, hnames.cons_cons name⟩
      show asJsonEntries ((name, e') :: s') = some ((name, e') :: s')
      rw [asJsonEntries, he', hsame]
      rfl

/-- The same for the sections of an array. -/
theorem asJsonObjects_settled : (ss : List (List (Blob × StorageEntry))) → OrdinaryObjects ss →
    (ss' : List (List (Blob × StorageEntry))) → asJsonObjects ss = some ss' →
    OrdinaryObjects ss' ∧ asJsonObjects ss' = some ss'
  | [], _, ss', h => by
    cases h
    exact ⟨trivial, rfl⟩
  | s :: ss, hordinary, ss', h => by
    unfold asJsonObjects at h
    obtain ⟨s', hs, h⟩ := Option.bind_eq_some_iff.1 h
    obtain ⟨ss'', hss, h⟩ := Option.bind_eq_some_iff.1 h
    cases h
    obtain ⟨hentries, hsame, hnames⟩ := asJsonEntries_settled s hordinary.1.2 s' hs
    obtain ⟨hordinary', hsame'⟩ := asJsonObjects_settled ss hordinary.2 ss'' hss
    refine ⟨⟨⟨?_, hentries⟩, hordinary'⟩, ?_⟩
    · exact List.pairwise_map.1 ((List.pairwise_map.2 hordinary.1.1).sublist hnames)
    · rw [asJsonObjects, hsame, hsame']
      rfl

end

/-- What is read of a written text, when nothing is, and that what was read is the same
from then on. -/
theorem json_trips {d : DoubleText} {root : Section} (h : Ordinary (.object root)) (indent : Nat)
    (rest : Blob) :
    loadFromJson d (dumpAsJson d root indent ++ rest) = asJsonEntries root ∧
      (loadFromJson d (dumpAsJson d root indent ++ rest) = none ↔ UnreadableEntries root) ∧
      ∀ s, asJsonEntries root = some s → ∀ indent' rest',
        loadFromJson d (dumpAsJson d s indent' ++ rest') = some s := by
  have hread := loadFromJson_dumpAsJson (d := d) h indent rest
  refine ⟨hread, by rw [hread, asJsonEntries_eq_none_iff], fun s hs indent' rest' => ?_⟩
  have hobject : asJson (.object root) = some (some (.object s)) := by
    unfold asJson
    rw [hs]
    rfl
  obtain ⟨hordinary, -⟩ := asJson_settled (.object root) h (.object s) hobject
  obtain ⟨-, hsame, -⟩ := asJsonEntries_settled root h.2 s hs
  rw [loadFromJson_dumpAsJson hordinary, hsame]

theorem json_trips_assorted :
    loadFromJson noDoubles (dumpAsJson noDoubles assorted 1 ++ [10]) = some assortedRead ∧
      loadFromJson noDoubles (dumpAsJson noDoubles assortedRead 0 ++ []) = some assortedRead :=
  ⟨(json_trips ordinary_assorted 1 [10]).1.trans asJsonEntries_assorted,
    (json_trips ordinary_assorted 1 [10]).2.2 assortedRead asJsonEntries_assorted 0 []⟩

end DarknetSpace.PortableStorage
