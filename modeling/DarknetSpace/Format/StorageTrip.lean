import DarknetSpace.Format.PortableStorage

/-!
# A storage is read back as it was written

The reader is given the calls it has left, so each statement asks for enough of them:
a byte block takes one, a number two or three, and a section as many as what is in it
(`SectionFits`). What is written is taken off the front of the input, whatever follows.

Small readers first: `readVarint_packVarint`, `readString_putString`, a name, a number,
and `readAll` of as many as there are. Then the trees, by induction over entries,
arrays, sections and lists of sections at once, with the writer's own recursion
(`loadStorageEntry_packEntry` and its three companions). A section is read by inserting
its entries one by one, and for a sorted section that is appending (`insertAll_sorted`).

Main result: `loadFromBinary_storeToBinary`, the round trip of a sorted root that is
not nested too deep for the guard.
-/

namespace DarknetSpace.PortableStorage

/-! ## What is written is read back -/

variable {n : Nat} {bytes rest : Blob}

theorem read_append (hn : 1 ≤ n) : read bytes.length n (bytes ++ rest) = .ok (bytes, rest) := by
  obtain ⟨n, rfl⟩ : ∃ k, n = k + 1 := ⟨n - 1, by omega⟩
  show (if (bytes ++ rest).length < bytes.length then _ else _) = _
  rw [if_neg (by rw [List.length_append]; omega), List.take_left, List.drop_left]

/-- A number is read back from its bytes. -/
theorem readPod_append {size v : Nat} (hv : v < 256 ^ size) (hn : 2 ≤ n) :
    readPod size n (bytesOfPod size v ++ rest) = .ok (v, rest) := by
  obtain ⟨n, rfl⟩ : ∃ k, n = k + 1 := ⟨n - 1, by omega⟩
  have hread : read (bytesOfPod size v).length n (bytesOfPod size v ++ rest) =
      .ok (bytesOfPod size v, rest) := read_append (by omega)
  rw [bytesOfPod_length] at hread
  show (read size n (bytesOfPod size v ++ rest) >>= _) = _
  rw [hread]
  show Except.ok (podOfBytes (bytesOfPod size v), rest) = _
  rw [podOfBytes_bytesOfPod hv]

theorem readValue_append {size v : Nat} (hv : v < 256 ^ size) (hn : 3 ≤ n) :
    readValue size n (bytesOfPod size v ++ rest) = .ok (v, rest) := by
  obtain ⟨n, rfl⟩ : ∃ k, n = k + 1 := ⟨n - 1, by omega⟩
  exact readPod_append hv (by omega)

/-- The mark in the low bits of a number tells its size. -/
theorem readVarint_append {size v : Nat} (hv : v < 256 ^ (size + 1))
    (hmark : markedSize (UInt8.ofNat v) = size + 1) (hn : 4 ≤ n) :
    readVarint n (bytesOfPod (size + 1) v ++ rest) = .ok (v / 4, rest) := by
  obtain ⟨n, rfl⟩ : ∃ k, n = k + 1 := ⟨n - 1, by omega⟩
  have hread : readValue (size + 1) n (bytesOfPod (size + 1) v ++ rest) = .ok (v, rest) :=
    readValue_append hv (by omega)
  show (readValue (markedSize (UInt8.ofNat v)) n (bytesOfPod (size + 1) v ++ rest) >>= _) = _
  rw [hmark, hread]
  rfl

/-- A size is read back, whichever mark it was written with. -/
theorem readVarint_packVarint {v : Nat} (hpack : packVarint v = some bytes) (hn : 4 ≤ n) :
    readVarint n (bytes ++ rest) = .ok (v, rest) := by
  unfold packVarint maxVarint at hpack
  split at hpack
  · cases hpack
    rw [readVarint_append (by omega) (by rw [markedSize_ofNat, show 4 * v % 4 = 0 by omega]; rfl) hn,
      show 4 * v / 4 = v by omega]
  · split at hpack
    · cases hpack
      rw [readVarint_append (by omega)
        (by rw [markedSize_ofNat, show (4 * v + 1) % 4 = 1 by omega]; rfl) hn,
        show (4 * v + 1) / 4 = v by omega]
    · split at hpack
      · cases hpack
        rw [readVarint_append (by omega)
          (by rw [markedSize_ofNat, show (4 * v + 2) % 4 = 2 by omega]; rfl) hn,
          show (4 * v + 2) / 4 = v by omega]
      · split at hpack
        · cases hpack
          rw [readVarint_append (by omega)
            (by rw [markedSize_ofNat, show (4 * v + 3) % 4 = 3 by omega]; rfl) hn,
            show (4 * v + 3) / 4 = v by omega]
        · cases hpack

/-- A string is read back. -/
theorem readString_putString {s : Blob} (hput : putString s = some bytes)
    (hs : s.length < maxStringLenPossible) (hn : 5 ≤ n) :
    readString n (bytes ++ rest) = .ok (s, rest) := by
  obtain ⟨n, rfl⟩ : ∃ k, n = k + 1 := ⟨n - 1, by omega⟩
  obtain ⟨size, hsize, hput⟩ := Option.bind_eq_some_iff.1 hput
  cases hput
  show (readVarint n ((size ++ s) ++ rest) >>= _) = _
  rw [List.append_assoc, readVarint_packVarint hsize (by omega)]
  show (if ¬ s.length < maxStringLenPossible then _ else if (s ++ rest).length < s.length then _
    else _) = _
  rw [if_neg (not_not.2 hs), if_neg (by rw [List.length_append]; omega), List.take_left,
    List.drop_left]

theorem readStringValue_putString {s : Blob} (hput : putString s = some bytes)
    (hs : s.length < maxStringLenPossible) (hn : 6 ≤ n) :
    readStringValue n (bytes ++ rest) = .ok (s, rest) := by
  obtain ⟨n, rfl⟩ : ∃ k, n = k + 1 := ⟨n - 1, by omega⟩
  exact readString_putString hput hs (by omega)

theorem readSecName_append {name : Blob} (hname : name.length < 256) (hn : 3 ≤ n) :
    readSecName n (bytesOfPod 1 name.length ++ (name ++ rest)) = .ok (name, rest) := by
  obtain ⟨n, rfl⟩ : ∃ k, n = k + 1 := ⟨n - 1, by omega⟩
  show (readPod 1 n _ >>= _) = _
  rw [readPod_append hname (by omega)]
  exact read_append (by omega)

/-- The first element, then the others. -/
theorem readAll_cons {α : Type} {f : Read α} {x : α} {xs : List α} {bytes' : Blob}
    (hx : f (bytes ++ (bytes' ++ rest)) = .ok (x, bytes' ++ rest))
    (hxs : readAll f xs.length (bytes' ++ rest) = .ok (xs, rest)) :
    readAll f (x :: xs).length ((bytes ++ bytes') ++ rest) = .ok (x :: xs, rest) := by
  rw [List.append_assoc]
  show (f (bytes ++ (bytes' ++ rest)) >>= _) = _
  rw [hx]
  show (readAll f xs.length (bytes' ++ rest) >>= _) = _
  rw [hxs]
  rfl

/-- A number of an array is read back. -/
theorem readPodValue_append (t : PodType) (v : Pod t) (hn : 3 ≤ n) :
    readPodValue t n (bytesOfPod t.size v.toNat ++ rest) = .ok (v, rest) := by
  have hv : v.toNat < 256 ^ t.size := by
    have := v.isLt
    rw [Nat.pow_mul] at this
    exact this
  show (readValue t.size n _ >>= _) = _
  rw [readValue_append hv hn]
  show Except.ok (BitVec.ofNat _ v.toNat, rest) = _
  rw [BitVec.ofNat_toNat, BitVec.setWidth_eq]

theorem readAll_packPods (t : PodType) (vs : List (Pod t)) (hn : 3 ≤ n) :
    readAll (readPodValue t n) vs.length (packPods t vs ++ rest) = .ok (vs, rest) := by
  induction vs with
  | nil => rfl
  | cons v vs ih => exact readAll_cons (readPodValue_append t v hn) ih

/-- The strings of an array are read back. -/
theorem readAll_putStrings {ss : List Blob} (hput : putStrings ss = some bytes)
    (hss : ∀ s ∈ ss, 6 ≤ n ∧ s.length < maxStringLenPossible) :
    readAll (readStringValue n) ss.length (bytes ++ rest) = .ok (ss, rest) := by
  induction ss generalizing bytes with
  | nil =>
    cases hput
    rfl
  | cons s ss ih =>
    obtain ⟨bytes₁, hs, hput⟩ := Option.bind_eq_some_iff.1 hput
    obtain ⟨bytes₂, hrest, hall⟩ := Option.bind_eq_some_iff.1 hput
    cases hall
    obtain ⟨hn, hlen⟩ := hss s (List.mem_cons_self ..)
    exact readAll_cons (readStringValue_putString hs hlen hn)
      (ih hrest fun s hs => hss s (List.mem_cons_of_mem _ hs))

/-! ### Names -/

/-- The entries stand in the order of their names, none of them twice. -/
def Sorted (entries : Section) : Prop := entries.Pairwise fun a b => a.1 < b.1

/-- A name behind all others goes to the end. -/
theorem insertEntry_last {name : Blob} {e : StorageEntry} {entries : Section}
    (h : ∀ pair ∈ entries, pair.1 < name) :
    insertEntry name e entries = entries ++ [(name, e)] := by
  induction entries with
  | nil => rfl
  | cons pair entries ih =>
    have hlt := h pair (List.mem_cons_self ..)
    unfold insertEntry
    rw [if_neg (List.lt_asymm hlt), if_pos hlt, ih (fun p hp => h p (List.mem_cons_of_mem _ hp))]
    rfl

/-- Entries that are sorted stay as they are. -/
theorem insertAll_sorted {entries : Section} (h : Sorted entries) : insertAll entries = entries := by
  have hfold : ∀ (front back : Section), Sorted (front ++ back) →
      back.foldl (fun entries pair => insertEntry pair.1 pair.2 entries) front = front ++ back := by
    intro front back
    induction back generalizing front with
    | nil => exact fun _ => (List.append_nil _).symm
    | cons pair back ih =>
      intro hsorted
      have hbefore : ∀ p ∈ front, p.1 < pair.1 := fun p hp =>
        (List.pairwise_append.1 hsorted).2.2 p hp pair (List.mem_cons_self ..)
      have hassoc : front ++ pair :: back = (front ++ [pair]) ++ back := by
        rw [List.append_assoc]
        rfl
      rw [List.foldl_cons, insertEntry_last hbefore, hassoc]
      exact ih _ (hassoc ▸ hsorted)
  exact hfold [] entries h

/-! ### Trees -/

mutual

/-- The entry is one the reader can come by with `n` calls left. -/
def EntryFits : StorageEntry → Nat → Prop
  | .pod _ _, n => 4 ≤ n
  | .string s, n => 8 ≤ n ∧ s.length < maxStringLenPossible
  | .object entries, n =>
    7 ≤ n ∧ Sorted entries ∧ entries.length ≤ maxVarint ∧ EntriesFit entries (n - 3)
  | .array a, n => ArrayFits a (n - 1)

/-- What an array must keep to be read with so many calls left. -/
def ArrayFits : ArrayEntry → Nat → Prop
  | .pods _ vs, n => 6 ≤ n ∧ vs.length ≤ maxVarint
  | .strings ss, n =>
    6 ≤ n ∧ ss.length ≤ maxVarint ∧ ∀ s ∈ ss, 8 ≤ n ∧ s.length < maxStringLenPossible
  | .objects ss, n => 6 ≤ n ∧ ss.length ≤ maxVarint ∧ ObjectsFit ss n
  -- what is in an array of arrays cannot be read
  | .arrays as, n => 6 ≤ n ∧ as = []

/-- The same for the entries of a section. -/
def EntriesFit : List (Blob × StorageEntry) → Nat → Prop
  | [], _ => True
  | (name, e) :: entries, n => name.length < 256 ∧ EntryFits e n ∧ EntriesFit entries n

/-- The same for the sections of an array. -/
def ObjectsFit : List (List (Blob × StorageEntry)) → Nat → Prop
  | [], _ => True
  | s :: ss, n =>
    (8 ≤ n ∧ Sorted s ∧ s.length ≤ maxVarint ∧ EntriesFit s (n - 4)) ∧ ObjectsFit ss n

end

/-- The section is one the reader can come by with `n` calls left. -/
def SectionFits (entries : Section) (n : Nat) : Prop :=
  5 ≤ n ∧ Sorted entries ∧ entries.length ≤ maxVarint ∧ EntriesFit entries (n - 1)

/-- A number under a name is read back. -/
theorem readSe_append (t : PodType) (v : Pod t) (hn : 3 ≤ n) :
    readSe t n (bytesOfPod t.size v.toNat ++ rest) = .ok (v, rest) := by
  obtain ⟨n, rfl⟩ : ∃ k, n = k + 1 := ⟨n - 1, by omega⟩
  have hv : v.toNat < 256 ^ t.size := by
    have := v.isLt
    rw [Nat.pow_mul] at this
    exact this
  show (readPod t.size n _ >>= _) = _
  rw [readPod_append hv (by omega)]
  show Except.ok (BitVec.ofNat _ v.toNat, rest) = _
  rw [BitVec.ofNat_toNat, BitVec.setWidth_eq]

theorem readSeString_putString {s : Blob} (hput : putString s = some bytes)
    (hs : s.length < maxStringLenPossible) (hn : 7 ≤ n) :
    readSeString n (bytes ++ rest) = .ok (s, rest) := by
  obtain ⟨n, rfl⟩ : ∃ k, n = k + 1 := ⟨n - 1, by omega⟩
  exact readStringValue_putString hput hs (by omega)

/-- A counted array is read back when its elements are. -/
theorem readAe_append {α : Type} {f : Nat → Read α} {xs : List α} {count : Blob}
    (hcount : packVarint xs.length = some count) (hn : 5 ≤ n)
    (hxs : readAll (f (n - 1)) xs.length (bytes ++ rest) = .ok (xs, rest)) :
    readAe f n ((count ++ bytes) ++ rest) = .ok (xs, rest) := by
  obtain ⟨n, rfl⟩ : ∃ k, n = k + 1 := ⟨n - 1, by omega⟩
  rw [List.append_assoc]
  show (readVarint n _ >>= _) = _
  rw [readVarint_packVarint hcount (by omega)]
  exact hxs

namespace PodType

theorem code_bounds (t : PodType) : t.code < 128 ∧ t.code ≠ serializeTypeString ∧
    t.code ≠ serializeTypeObject ∧ t.code ≠ serializeTypeArray := by
  cases t <;> decide

end PodType

@[simp] theorem ok_bind {α β : Type} (a : α) (f : α → Except StorageError β) :
    (Except.ok a >>= f) = f a := rfl

/-! The type comes first, and tells the reader which way to go. -/

section Intro

variable {s s' : Blob}

/-- The code of a number leads to `read_se` of its type. -/
theorem loadStorageEntry_pod {t : PodType} {v : Pod t} (hn : 2 ≤ n)
    (hread : readSe t n s = .ok (v, s')) :
    loadStorageEntry (n + 1) (bytesOfPod 1 t.code ++ s) = .ok (.pod t v, s') := by
  obtain ⟨hlt, hstring, hobject, harray⟩ := t.code_bounds
  have hflag : ¬ serializeFlagArray ≤ t.code := Nat.not_le.2 hlt
  rw [loadStorageEntry, readPod_append (by omega) hn, ok_bind]
  simp only [hflag, hstring, hobject, harray, if_false, PodType.ofCode_code, hread, ok_bind]

/-- The code of a string leads to `read_se` of a string. -/
theorem loadStorageEntry_string {v : Blob} (hn : 2 ≤ n) (hread : readSeString n s = .ok (v, s')) :
    loadStorageEntry (n + 1) (bytesOfPod 1 serializeTypeString ++ s) = .ok (.string v, s') := by
  have hflag : ¬ serializeFlagArray ≤ serializeTypeString := by decide
  rw [loadStorageEntry, readPod_append (by decide) hn, ok_bind]
  simp only [hflag, if_false, if_true, hread, ok_bind]

/-- The code of an object leads to `read_se` of a section. -/
theorem loadStorageEntry_object {v : Section} (hn : 2 ≤ n)
    (hread : readSeSection n s = .ok (v, s')) :
    loadStorageEntry (n + 1) (bytesOfPod 1 serializeTypeObject ++ s) = .ok (.object v, s') := by
  have hflag : ¬ serializeFlagArray ≤ serializeTypeObject := by decide
  have hstring : serializeTypeObject ≠ serializeTypeString := by decide
  rw [loadStorageEntry, readPod_append (by decide) hn, ok_bind]
  simp only [hflag, hstring, if_false, if_true, hread, ok_bind]

/-- A code with the array flag leads to `load_storage_array_entry`. -/
theorem loadStorageEntry_array {type : Nat} {v : ArrayEntry} (hn : 2 ≤ n) (htype : type < 128)
    (hread : loadStorageArrayEntry n (type + serializeFlagArray) s = .ok (v, s')) :
    loadStorageEntry (n + 1) (bytesOfPod 1 (type + serializeFlagArray) ++ s) =
      .ok (.array v, s') := by
  have hlt : type + serializeFlagArray < 256 ^ 1 := Nat.add_lt_add_right htype _
  have hflag : serializeFlagArray ≤ type + serializeFlagArray := Nat.le_add_left ..
  rw [loadStorageEntry, readPod_append hlt hn, ok_bind]
  simp only [hflag, if_true, hread, ok_bind]

theorem flag_off {type : Nat} (htype : type < 128) :
    (type + serializeFlagArray) % serializeFlagArray = type := by
  rw [Nat.add_mod_right]
  exact Nat.mod_eq_of_lt htype

theorem loadStorageArrayEntry_pods {t : PodType} {vs : List (Pod t)}
    (hread : readAe (readPodValue t) n s = .ok (vs, s')) :
    loadStorageArrayEntry (n + 1) (t.code + serializeFlagArray) s = .ok (.pods t vs, s') := by
  obtain ⟨hlt, hstring, hobject, harray⟩ := t.code_bounds
  rw [loadStorageArrayEntry]
  simp only [flag_off hlt, hstring, hobject, harray, if_false, PodType.ofCode_code, hread, ok_bind]

/-- The code of a string leads to an array of strings. -/
theorem loadStorageArrayEntry_strings {ss : List Blob}
    (hread : readAe readStringValue n s = .ok (ss, s')) :
    loadStorageArrayEntry (n + 1) (serializeTypeString + serializeFlagArray) s =
      .ok (.strings ss, s') := by
  have hlt : serializeTypeString < 128 := by decide
  rw [loadStorageArrayEntry]
  simp only [flag_off hlt, if_true, hread, ok_bind]

/-- The code of an object leads to an array of sections. -/
theorem loadStorageArrayEntry_objects {ss : List Section}
    (hread : readAeSection n s = .ok (ss, s')) :
    loadStorageArrayEntry (n + 1) (serializeTypeObject + serializeFlagArray) s =
      .ok (.objects ss, s') := by
  have hlt : serializeTypeObject < 128 := by decide
  have hstring : serializeTypeObject ≠ serializeTypeString := by decide
  rw [loadStorageArrayEntry]
  simp only [flag_off hlt, hstring, if_false, if_true, hread, ok_bind]

/-- The code of an array leads to an array of arrays. -/
theorem loadStorageArrayEntry_arrays {as : List ArrayEntry}
    (hread : readAe readArrayValue n s = .ok (as, s')) :
    loadStorageArrayEntry (n + 1) (serializeTypeArray + serializeFlagArray) s =
      .ok (.arrays as, s') := by
  have hlt : serializeTypeArray < 128 := by decide
  have hstring : serializeTypeArray ≠ serializeTypeString := by decide
  have hobject : serializeTypeArray ≠ serializeTypeObject := by decide
  rw [loadStorageArrayEntry]
  simp only [flag_off hlt, hstring, hobject, if_false, if_true, hread, ok_bind]

end Intro

/-- A name, and the entry under it. -/
def readNamed (n : Nat) : Read (Blob × StorageEntry) := fun s => do
  let (name, s) ← readSecName n s
  let (e, s) ← loadStorageEntry n s
  .ok ((name, e), s)

theorem readSection_succ (n : Nat) (s : Blob) : readSection (n + 1) s = (do
    let (count, s) ← readVarint n s
    let (pairs, s) ← readAll (readNamed n) count s
    .ok (insertAll pairs, s)) := by
  rw [readSection]
  rfl

theorem readSection_of_entries {entries : Section} {count body : Blob} (hn : 4 ≤ n)
    (hsorted : Sorted entries) (hcount : packVarint entries.length = some count)
    (hbody : readAll (readNamed n) entries.length (body ++ rest) = .ok (entries, rest)) :
    readSection (n + 1) ((count ++ body) ++ rest) = .ok (entries, rest) := by
  rw [readSection_succ, List.append_assoc, readVarint_packVarint hcount hn, ok_bind]
  simp only [hbody, ok_bind, insertAll_sorted hsorted]

mutual

/-- An entry that was packed is read back: by the structure of the tree, one case for each kind of
value. -/
theorem loadStorageEntry_packEntry {n : Nat} {bytes rest : Blob} :
    ∀ {e : StorageEntry}, packEntry e = some bytes → EntryFits e n →
      loadStorageEntry n (bytes ++ rest) = .ok (e, rest)
  | .pod t v, hpack, hfits => by
    obtain ⟨n, rfl⟩ : ∃ k, n = k + 4 := ⟨n - 4, (Nat.sub_add_cancel hfits).symm⟩
    cases hpack
    rw [List.append_assoc]
    exact loadStorageEntry_pod (by omega) (readSe_append t v (by omega))
  | .string s, hpack, hfits => by
    obtain ⟨hn, hs⟩ : 8 ≤ n ∧ s.length < maxStringLenPossible := hfits
    obtain ⟨n, rfl⟩ : ∃ k, n = k + 8 := ⟨n - 8, (Nat.sub_add_cancel hn).symm⟩
    obtain ⟨body, hput, hpack⟩ := Option.bind_eq_some_iff.1 hpack
    cases hpack
    rw [List.append_assoc]
    exact loadStorageEntry_string (by omega) (readSeString_putString hput hs (by omega))
  | .object entries, hpack, hfits => by
    obtain ⟨hn, hsorted, -, hentries⟩ : 7 ≤ n ∧ Sorted entries ∧ entries.length ≤ maxVarint ∧
      EntriesFit entries (n - 3) := hfits
    obtain ⟨n, rfl⟩ : ∃ k, n = k + 7 := ⟨n - 7, (Nat.sub_add_cancel hn).symm⟩
    obtain ⟨count, hcount, hpack⟩ := Option.bind_eq_some_iff.1 hpack
    obtain ⟨body, hbody, hpack⟩ := Option.bind_eq_some_iff.1 hpack
    cases hpack
    have hread : readAll (readNamed (n + 4)) entries.length (body ++ rest) = .ok (entries, rest) :=
      readAll_packEntries hbody hentries (by omega)
    rw [List.append_assoc]
    exact loadStorageEntry_object (by omega) (readSection_of_entries (by omega) hsorted hcount hread)
  | .array a, hpack, hfits => by
    have hfits' : ArrayFits a (n - 1) := hfits
    obtain ⟨type, body, hn, htype, rfl, hload⟩ :=
      loadStorageArrayEntry_packArray hpack hfits' rest
    obtain ⟨n, rfl⟩ : ∃ k, n = k + 1 := ⟨n - 1, by omega⟩
    rw [List.append_assoc]
    exact loadStorageEntry_array (by omega) htype hload

/-- The same for an array, whose packed form is the code of its elements and a body. -/
theorem loadStorageArrayEntry_packArray {n : Nat} {bytes : Blob} :
    ∀ {a : ArrayEntry}, packArray a = some bytes → ArrayFits a n → ∀ rest,
      ∃ type body, 6 ≤ n ∧ type < 128 ∧ bytes = bytesOfPod 1 (type + serializeFlagArray) ++ body ∧
        loadStorageArrayEntry n (type + serializeFlagArray) (body ++ rest) = .ok (a, rest)
  | .pods t vs, hpack, hfits, rest => by
    have hn : 6 ≤ n := hfits.1
    obtain ⟨n, rfl⟩ : ∃ k, n = k + 6 := ⟨n - 6, (Nat.sub_add_cancel hn).symm⟩
    obtain ⟨count, hcount, hpack⟩ := Option.bind_eq_some_iff.1 hpack
    cases hpack
    refine ⟨_, _, hn, t.code_bounds.1, rfl, loadStorageArrayEntry_pods ?_⟩
    exact readAe_append hcount (by omega) (readAll_packPods t vs (by omega))
  | .strings ss, hpack, hfits, rest => by
    obtain ⟨hn, -, hss⟩ : 6 ≤ n ∧ ss.length ≤ maxVarint ∧
      ∀ s ∈ ss, 8 ≤ n ∧ s.length < maxStringLenPossible := hfits
    obtain ⟨n, rfl⟩ : ∃ k, n = k + 6 := ⟨n - 6, (Nat.sub_add_cancel hn).symm⟩
    obtain ⟨count, hcount, hpack⟩ := Option.bind_eq_some_iff.1 hpack
    obtain ⟨body, hbody, hpack⟩ := Option.bind_eq_some_iff.1 hpack
    cases hpack
    refine ⟨_, _, hn, by decide, rfl, loadStorageArrayEntry_strings ?_⟩
    exact readAe_append hcount (by omega) (readAll_putStrings hbody fun s hs =>
      ⟨Nat.sub_le_sub_right (hss s hs).1 2, (hss s hs).2⟩)
  | .objects ss, hpack, hfits, rest => by
    obtain ⟨hn, -, hss⟩ : 6 ≤ n ∧ ss.length ≤ maxVarint ∧ ObjectsFit ss n := hfits
    obtain ⟨n, rfl⟩ : ∃ k, n = k + 6 := ⟨n - 6, (Nat.sub_add_cancel hn).symm⟩
    obtain ⟨count, hcount, hpack⟩ := Option.bind_eq_some_iff.1 hpack
    obtain ⟨body, hbody, hpack⟩ := Option.bind_eq_some_iff.1 hpack
    cases hpack
    refine ⟨_, count ++ body, hn, by decide, rfl, loadStorageArrayEntry_objects ?_⟩
    rw [List.append_assoc, readAeSection, readVarint_packVarint hcount (by omega), ok_bind]
    exact readAll_packObjects hbody hss
  | .arrays as, hpack, hfits, rest => by
    obtain ⟨hn, rfl⟩ : 6 ≤ n ∧ as = [] := hfits
    obtain ⟨n, rfl⟩ : ∃ k, n = k + 6 := ⟨n - 6, (Nat.sub_add_cancel hn).symm⟩
    rw [packArray] at hpack
    obtain ⟨count, hcount, hpack⟩ := Option.bind_eq_some_iff.1 hpack
    obtain ⟨body, hbody, hpack⟩ := Option.bind_eq_some_iff.1 hpack
    cases hpack
    cases hbody
    refine ⟨_, _, hn, by decide, rfl, loadStorageArrayEntry_arrays ?_⟩
    exact readAe_append hcount (by omega) rfl

/-- The same for the entries of a section. -/
theorem readAll_packEntries {n : Nat} {bytes rest : Blob} :
    ∀ {entries : List (Blob × StorageEntry)}, packEntries entries = some bytes →
      EntriesFit entries n → 3 ≤ n →
        readAll (readNamed n) entries.length (bytes ++ rest) = .ok (entries, rest)
  | [], hpack, hfits, hn => by
    cases hpack
    rfl
  | (name, e) :: entries, hpack, hfits, hn => by
    obtain ⟨hname, he, hentries⟩ : name.length < 256 ∧ EntryFits e n ∧ EntriesFit entries n := hfits
    unfold packEntries at hpack
    split at hpack
    · cases hpack
    · obtain ⟨body, hbody, hpack⟩ := Option.bind_eq_some_iff.1 hpack
      obtain ⟨tail, htail, hpack⟩ := Option.bind_eq_some_iff.1 hpack
      cases hpack
      have hnamed : readNamed n ((bytesOfPod 1 name.length ++ (name ++ body)) ++ (tail ++ rest)) =
          .ok ((name, e), tail ++ rest) := by
        unfold readNamed
        rw [List.append_assoc, List.append_assoc, readSecName_append hname hn]
        show (loadStorageEntry n (body ++ (tail ++ rest)) >>= _) = _
        rw [loadStorageEntry_packEntry hbody he]
        rfl
      have hassoc : bytesOfPod 1 name.length ++ (name ++ (body ++ tail)) =
          (bytesOfPod 1 name.length ++ (name ++ body)) ++ tail := by
        simp only [List.append_assoc]
      rw [hassoc]
      exact readAll_cons hnamed (readAll_packEntries htail hentries hn)

/-- The same for the sections of an array. -/
theorem readAll_packObjects {n : Nat} {bytes rest : Blob} :
    ∀ {ss : List (List (Blob × StorageEntry))}, packObjects ss = some bytes → ObjectsFit ss n →
      readAll (readSectionValue (n - 2)) ss.length (bytes ++ rest) = .ok (ss, rest)
  | [], hpack, hfits => by
    cases hpack
    rfl
  | s :: ss, hpack, hfits => by
    obtain ⟨⟨hn, hsorted, -, hentries⟩, hss⟩ : (8 ≤ n ∧ Sorted s ∧ s.length ≤ maxVarint ∧
      EntriesFit s (n - 4)) ∧ ObjectsFit ss n := hfits
    obtain ⟨count, hcount, hpack⟩ := Option.bind_eq_some_iff.1 hpack
    obtain ⟨body, hbody, hpack⟩ := Option.bind_eq_some_iff.1 hpack
    obtain ⟨tail, htail, hpack⟩ := Option.bind_eq_some_iff.1 hpack
    cases hpack
    have hread : readSection (n - 4 + 1) ((count ++ body) ++ (tail ++ rest)) =
        .ok (s, tail ++ rest) :=
      readSection_of_entries (by omega) hsorted hcount
        (readAll_packEntries hbody hentries (by omega))
    have hvalue : readSectionValue (n - 2) ((count ++ body) ++ (tail ++ rest)) =
        .ok (s, tail ++ rest) := by
      rw [show n - 2 = n - 4 + 1 + 1 by omega, readSectionValue]
      exact hread
    have hassoc : count ++ (body ++ tail) = (count ++ body) ++ tail := (List.append_assoc ..).symm
    rw [hassoc]
    exact readAll_cons hvalue (readAll_packObjects htail hss)

end

/-- A section that was packed is read back. -/
theorem readSection_packSection {entries : Section} (hpack : packSection entries = some bytes)
    (hfits : SectionFits entries n) : readSection n (bytes ++ rest) = .ok (entries, rest) := by
  obtain ⟨hn, hsorted, -, hentries⟩ := hfits
  obtain ⟨count, hcount, hpack⟩ := Option.bind_eq_some_iff.1 hpack
  obtain ⟨body, hbody, hpack⟩ := Option.bind_eq_some_iff.1 hpack
  cases hpack
  have hread : readSection (n - 1 + 1) ((count ++ body) ++ rest) = .ok (entries, rest) :=
    readSection_of_entries (by omega) hsorted hcount (readAll_packEntries hbody hentries (by omega))
  rw [Nat.sub_add_cancel (by omega)] at hread
  exact hread

theorem packVarint_ne_nil {v : Nat} (hpack : packVarint v = some bytes) : bytes ≠ [] := by
  unfold packVarint at hpack
  split_ifs at hpack <;> cases hpack <;> exact List.cons_ne_nil _ _

/-- What is stored is loaded again, whatever follows it. -/
theorem loadFromBinary_storeToBinary {root : Section} (hfits : SectionFits root recursionBudget)
    (hstore : storeToBinary root = some bytes) (rest : Blob) :
    loadFromBinary (bytes ++ rest) = some root := by
  obtain ⟨body, hbody, hstore⟩ := Option.bind_eq_some_iff.1 hstore
  cases hstore
  have hread : readSection recursionBudget (body ++ rest) = .ok (root, rest) :=
    readSection_packSection hbody hfits
  obtain ⟨b, s, hcons⟩ : ∃ b s, body ++ rest = b :: s := by
    obtain ⟨count, hcount, hbody⟩ := Option.bind_eq_some_iff.1 hbody
    obtain ⟨tail, htail, hbody⟩ := Option.bind_eq_some_iff.1 hbody
    cases hbody
    obtain ⟨b, s, rfl⟩ := List.exists_cons_of_ne_nil (packVarint_ne_nil hcount)
    exact ⟨b, s ++ tail ++ rest, rfl⟩
  unfold loadFromBinary
  rw [List.append_assoc, List.take_left, List.drop_left, if_neg (not_not.2 rfl), hcons]
  rw [hcons] at hread
  simp only [hread]

end DarknetSpace.PortableStorage
