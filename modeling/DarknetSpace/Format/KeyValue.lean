import DarknetSpace.Format.StorageBack

/-!
# Structures by their names (`keyvalue_serialization.h`, `keyvalue_serialization_overloads.h`,
`portable_storage_val_converters.h`, `portable_storage_template_helper.h`)

`BEGIN_KV_SERIALIZE_MAP` lists the members of a structure with the names they are
stored under. A member that is not found when it is loaded stays as it was, and so does
one of another size; a value that cannot be converted throws, and the members after it
stay as they were. Whoever asks for a message takes what was loaded until then.

A `Kind` is an overload of `kv_serialize` with its counterpart. It carries that what it
stores it loads, whatever was there before, and how many calls the reader needs for it.

A `KvMap` is sound by construction: its names differ and are short enough. Main results:
`loadTFromBinary_storeTToBinary` and `inStruct_storeTToBinary`, that a structure whose
nesting the reader allows is loaded as it was stored, whatever the structure was that it
is loaded into.
-/

namespace DarknetSpace.PortableStorage

/-! ## A section as a map -/

/-- `find_storage_entry`. -/
def findStorageEntry (name : Blob) : Section → Option StorageEntry
  | [] => none
  | (k, e) :: entries => if k = name then some e else findStorageEntry name entries

/-- `set_value`: a new entry, or another value under the name. -/
def setValue (name : Blob) (e : StorageEntry) (s : Section) : Section :=
  match findStorageEntry name s with
  | none => insertEntry name e s
  | some _ => s.map fun pair => if pair.1 = name then (name, e) else pair

theorem name_eq_of_not_lt {a b : Blob} (hab : ¬ a < b) (hba : ¬ b < a) : b = a :=
  List.le_antisymm (List.not_lt.1 hab) (List.not_lt.1 hba)

/-- A new entry is found under its name, the others as before. -/
theorem find_insertEntry {name : Blob} {e : StorageEntry} {s : Section}
    (h : findStorageEntry name s = none) (other : Blob) :
    findStorageEntry other (insertEntry name e s) =
      if name = other then some e else findStorageEntry other s := by
  induction s with
  | nil => rfl
  | cons pair s ih =>
    obtain ⟨k, v⟩ := pair
    have hk : ¬ k = name := by
      intro hk
      unfold findStorageEntry at h
      rw [if_pos hk] at h
      cases h
    have htail : findStorageEntry name s = none := by
      unfold findStorageEntry at h
      rwa [if_neg hk] at h
    unfold insertEntry
    by_cases hlt : name < k
    · rw [if_pos hlt]
      rfl
    · rw [if_neg hlt]
      by_cases hgt : k < name
      · rw [if_pos hgt]
        show (if k = other then some v else findStorageEntry other (insertEntry name e s)) =
          if name = other then some e else if k = other then some v else findStorageEntry other s
        rw [ih htail]
        by_cases hother : k = other
        · rw [if_pos hother, if_pos hother, if_neg fun heq => hk (hother.trans heq.symm)]
        · rw [if_neg hother, if_neg hother]
      · exact absurd (name_eq_of_not_lt hlt hgt) hk

/-- A replaced entry is found under its name, the others as before. -/
theorem find_replaced {name : Blob} {e : StorageEntry} (s : Section) (other : Blob)
    (h : name ≠ other ∨ findStorageEntry name s ≠ none) :
    findStorageEntry other (s.map fun pair => if pair.1 = name then (name, e) else pair) =
      if name = other then some e else findStorageEntry other s := by
  induction s with
  | nil =>
    rcases h with h | h
    · rw [if_neg h]
      rfl
    · exact absurd rfl h
  | cons pair s ih =>
    obtain ⟨k, v⟩ := pair
    rw [List.map_cons]
    unfold findStorageEntry
    by_cases hk : k = name
    · rw [if_pos hk]
      subst hk
      by_cases hother : k = other
      · rw [if_pos hother, if_pos hother]
      · rw [if_neg hother, if_neg hother, if_neg hother, ih (.inl hother), if_neg hother]
    · rw [if_neg hk]
      have htail : name ≠ other ∨ findStorageEntry name s ≠ none := by
        unfold findStorageEntry at h
        rwa [if_neg hk] at h
      simp only
      rw [ih htail]
      by_cases hother : k = other
      · rw [if_pos hother, if_pos hother, if_neg fun heq => hk (hother.trans heq.symm)]
      · rw [if_neg hother, if_neg hother]

/-- What is found after `set_value`. -/
theorem find_setValue (name : Blob) (e : StorageEntry) (s : Section) (other : Blob) :
    findStorageEntry other (setValue name e s) =
      if name = other then some e else findStorageEntry other s := by
  unfold setValue
  cases hfind : findStorageEntry name s with
  | none => exact find_insertEntry hfind other
  | some v =>
    refine find_replaced s other (.inr ?_)
    rw [hfind]
    exact Option.some_ne_none v

/-- `set_value` keeps the order of the names. -/
theorem Sorted.setValue {s : Section} (h : Sorted s) (name : Blob) (e : StorageEntry) :
    Sorted (setValue name e s) := by
  unfold PortableStorage.setValue
  cases findStorageEntry name s with
  | none => exact insertEntry_keepsSorted name e h
  | some v =>
    -- no name changes
    refine List.pairwise_map.2 (h.imp fun {a b} hab => ?_)
    have hname : ∀ pair : Blob × StorageEntry,
        (if pair.1 = name then (name, e) else pair).1 = pair.1 := by
      intro pair
      by_cases hpair : pair.1 = name
      · rw [if_pos hpair]
        exact hpair.symm
      · rw [if_neg hpair]
    rw [hname, hname]
    exact hab

/-- What is in a section after `set_value` is the new entry or was there. -/
theorem mem_setValue {name : Blob} {e : StorageEntry} {s : Section} {pair : Blob × StorageEntry}
    (h : pair ∈ setValue name e s) : pair = (name, e) ∨ pair ∈ s := by
  unfold setValue at h
  cases hfind : findStorageEntry name s with
  | none =>
    rw [hfind] at h
    exact mem_insertEntry h
  | some v =>
    rw [hfind] at h
    obtain ⟨old, hold, rfl⟩ := List.mem_map.1 h
    by_cases hname : old.1 = name
    · exact .inl (if_pos hname)
    · rw [if_neg hname]
      exact .inr hold

/-! ## Conversions -/

namespace PodType

/-- Whether a type is one of integers. -/
def isIntegral : PodType → Bool
  | double | bool => false
  | _ => true

/-- Whether an integer type is signed. -/
def isSigned : PodType → Bool
  | int64 | int32 | int16 | int8 => true
  | _ => false

/-- The integer a word stands for. -/
def value (t : PodType) (v : Pod t) : Int := if t.isSigned then v.toInt else v.toNat

/-- The smallest value of a type. -/
def lowest (t : PodType) : Int := if t.isSigned then -2 ^ (8 * t.size - 1) else 0

/-- The largest value of a type. -/
def highest (t : PodType) : Int :=
  if t.isSigned then 2 ^ (8 * t.size - 1) - 1 else 2 ^ (8 * t.size) - 1

end PodType

/-- `convert_t`: the same type, or an integer that the other type has. -/
def convertT {t : PodType} (v : Pod t) (t' : PodType) : Option (Pod t') :=
  if h : t = t' then some (h ▸ v)
  else if ¬ (t.isIntegral ∧ t'.isIntegral) then none
  else if ¬ (t'.lowest ≤ t.value v ∧ t.value v ≤ t'.highest) then none
  else some (BitVec.ofInt _ (t.value v))

theorem convertT_self {t : PodType} (v : Pod t) : convertT v t = some v := by
  unfold convertT
  rw [dif_pos rfl]

/-! ## Kinds of members -/

/-- A value as loading leaves it, and `false` where it threw. -/
abbrev Loaded (β : Type) := β × Bool

/-- What is stored of a member, `none` where there is nothing to store, and how it is loaded from
what is found under its name. -/
structure Kind (β : Type) where
  toEntry : β → Option StorageEntry
  ofEntry : Option StorageEntry → β → Loaded β
  /-- the calls that the reader needs -/
  need : Nat
  back : ∀ x old, ofEntry (toEntry x) old = (x, true)
  fits : ∀ {x e bytes}, toEntry x = some e → packEntry e = some bytes →
    bytes.length < maxStringLenPossible → EntryFits e need

theorem length_le_of_putString {s bytes : Blob} (h : putString s = some bytes) :
    s.length ≤ bytes.length := by
  obtain ⟨size, -, h⟩ := Option.bind_eq_some_iff.1 h
  cases h
  rw [List.length_append]
  exact Nat.le_add_left ..

theorem le_maxVarint {v : Nat} {bytes : Blob} (h : packVarint v = some bytes) : v ≤ maxVarint := by
  unfold packVarint maxVarint at h
  unfold maxVarint
  split_ifs at h <;> omega

/-- Each string of an array is no longer than the bytes of all. -/
theorem length_le_of_putStrings {ss : List Blob} {bytes : Blob} (h : putStrings ss = some bytes)
    {s : Blob} (hs : s ∈ ss) : s.length ≤ bytes.length := by
  induction ss generalizing bytes with
  | nil => exact absurd hs List.not_mem_nil
  | cons head ss ih =>
    obtain ⟨front, hfront, h⟩ := Option.bind_eq_some_iff.1 h
    obtain ⟨back, hback, h⟩ := Option.bind_eq_some_iff.1 h
    cases h
    rw [List.length_append]
    rcases List.mem_cons.1 hs with rfl | hs
    · exact Nat.le_trans (length_le_of_putString hfront) (Nat.le_add_right ..)
    · exact Nat.le_trans (ih hback hs) (Nat.le_add_left ..)

namespace Kind

variable {β γ : Type}

/-- `KV_SERIALIZE` of an integer. -/
def pod (t : PodType) : Kind (Pod t) where
  toEntry v := some (.pod t v)
  ofEntry
    | none, old => (old, true)
    | some (.pod _ v), old =>
      match convertT v t with
      | none => (old, false)
      | some v => (v, true)
    | some _, old => (old, false)
  need := 4
  back v _ := by simp only [convertT_self]
  fits {v e bytes} h _ _ := by
    cases h
    exact Nat.le_refl 4

/-- `KV_SERIALIZE` of a `std::string`. -/
def string : Kind Blob where
  toEntry s := some (.string s)
  ofEntry
    | none, old => (old, true)
    | some (.string s), _ => (s, true)
    | some _, old => (old, false)
  need := 8
  back _ _ := rfl
  fits {s e bytes} h hpack hlen := by
    cases h
    obtain ⟨body, hput, hpack⟩ := Option.bind_eq_some_iff.1 hpack
    cases hpack
    rw [List.length_append] at hlen
    have := length_le_of_putString hput
    exact ⟨Nat.le_refl 8, by omega⟩

/-- The same values under other names. -/
def iso (k : Kind β) (f : β → γ) (g : γ → β) (h : ∀ x, f (g x) = x) : Kind γ where
  toEntry x := k.toEntry (g x)
  ofEntry e old := (k.ofEntry e (g old)).map f id
  need := k.need
  back x old := by
    rw [k.back]
    exact congrArg (·, true) (h x)
  fits := k.fits

/-- `KV_SERIALIZE_VAL_POD_AS_BLOB` of a POD of `size` bytes. -/
def podAsBlob (size : Nat) (toBytes : β → Blob) (ofBytes : Blob → β)
    (hlen : ∀ x, (toBytes x).length = size) (h : ∀ x, ofBytes (toBytes x) = x) : Kind β where
  toEntry x := string.toEntry (toBytes x)
  ofEntry
    | none, old => (old, true)
    | some (.string blob), old => if blob.length ≠ size then (old, true) else (ofBytes blob, true)
    | some _, old => (old, false)
  need := 8
  back x old := by
    show (if (toBytes x).length ≠ size then (old, true) else (ofBytes (toBytes x), true)) = (x, true)
    rw [if_neg (not_not.2 (hlen x)), h]
  fits := string.fits

/-- The PODs of a blob, of `size` bytes each. -/
def elements (size : Nat) (ofBytes : Blob → β) : Nat → Blob → List β
  | 0, _ => []
  | count + 1, blob => ofBytes (blob.take size) :: elements size ofBytes count (blob.drop size)

/-- A list of PODs is read back from its bytes. -/
theorem elements_flatMap {size : Nat} {toBytes : β → Blob} {ofBytes : Blob → β}
    (hlen : ∀ x, (toBytes x).length = size) (h : ∀ x, ofBytes (toBytes x) = x) (xs : List β) :
    elements size ofBytes xs.length (xs.flatMap toBytes) = xs := by
  induction xs with
  | nil => rfl
  | cons x xs ih =>
    rw [List.length_cons, List.flatMap_cons, elements, ← hlen x, List.take_left, List.drop_left, h,
      hlen x, ih]

/-- How many bytes a list of PODs takes. -/
theorem length_flatMap_toBytes {size : Nat} {toBytes : β → Blob}
    (hlen : ∀ x, (toBytes x).length = size) (xs : List β) :
    (xs.flatMap toBytes).length = size * xs.length := by
  induction xs with
  | nil => rfl
  | cons x xs ih => rw [List.flatMap_cons, List.length_append, hlen, ih, List.length_cons,
      Nat.mul_succ, Nat.add_comm]

/-- `KV_SERIALIZE_CONTAINER_POD_AS_BLOB`. -/
def containerPodAsBlob (size : Nat) (hsize : 0 < size) (toBytes : β → Blob) (ofBytes : Blob → β)
    (hlen : ∀ x, (toBytes x).length = size) (h : ∀ x, ofBytes (toBytes x) = x) :
    Kind (List β) where
  toEntry
    | [] => none
    | x :: xs => string.toEntry ((x :: xs).flatMap toBytes)
  ofEntry
    | none, _ => ([], true)
    | some (.string buff), _ =>
      if buff.length % size ≠ 0 then ([], true)
      else (elements size ofBytes (buff.length / size) buff, true)
    | some _, _ => ([], false)
  need := 8
  back xs old := by
    cases xs with
    | nil => rfl
    | cons x xs =>
      show (if ((x :: xs).flatMap toBytes).length % size ≠ 0 then ([], true)
        else (elements size ofBytes (((x :: xs).flatMap toBytes).length / size)
          ((x :: xs).flatMap toBytes), true)) = (x :: xs, true)
      rw [length_flatMap_toBytes hlen, if_neg (not_not.2 (Nat.mul_mod_right ..)),
        Nat.mul_div_cancel_left _ hsize, elements_flatMap hlen h]
  fits {xs e bytes} he hpack hbytes := by
    cases xs with
    | nil => cases he
    | cons x xs => exact string.fits he hpack hbytes

/-- `unserialize_stl_container_t_val` of strings, from the array that was found. -/
def stringsOf : ArrayEntry → Loaded (List Blob)
  | .strings ss => (ss, true)
  | .pods _ [] | .objects [] | .arrays [] => ([], true)
  | _ => ([], false)

/-- `KV_SERIALIZE` of a container of strings. -/
def strings : Kind (List Blob) where
  toEntry
    | [] => none
    | s :: ss => some (.array (.strings (s :: ss)))
  ofEntry
    | some (.array a), _ => stringsOf a
    | _, _ => ([], true)
  need := 9
  back ss _ := by cases ss <;> rfl
  fits {ss e bytes} he hpack hbytes := by
    cases ss with
    | nil => cases he
    | cons s ss =>
      cases he
      obtain ⟨count, hcount, hpack⟩ := Option.bind_eq_some_iff.1 hpack
      obtain ⟨body, hbody, hpack⟩ := Option.bind_eq_some_iff.1 hpack
      cases hpack
      rw [List.length_append, List.length_append] at hbytes
      refine ⟨by decide, le_maxVarint hcount, fun s' hs => ?_⟩
      have := length_le_of_putStrings hbody hs
      exact ⟨Nat.le_refl 8, by omega⟩

end Kind

/-! ## Maps of members -/

/-- A line of `BEGIN_KV_SERIALIZE_MAP`. -/
structure Field (σ : Type) where
  name : Blob
  β : Type
  kind : Kind β
  get : σ → β
  set : β → σ → σ

namespace Field

variable {σ : Type}

/-- The field written into a section. -/
def store (f : Field σ) (x : σ) (s : Section) : Section :=
  match f.kind.toEntry (f.get x) with
  | none => s
  | some e => setValue f.name e s

/-- The field read from a section. -/
def load (f : Field σ) (s : Section) (x : σ) : Loaded σ :=
  (f.kind.ofEntry (findStorageEntry f.name s) (f.get x)).map (fun v => f.set v x) id

/-- A field stores nothing, or one entry under its name. -/
theorem store_cases (f : Field σ) (x : σ) (s : Section) :
    f.kind.toEntry (f.get x) = none ∧ f.store x s = s ∨
      ∃ e, f.kind.toEntry (f.get x) = some e ∧ f.store x s = setValue f.name e s := by
  unfold store
  cases f.kind.toEntry (f.get x) with
  | none => exact .inl ⟨rfl, rfl⟩
  | some e => exact .inr ⟨e, rfl, rfl⟩

end Field

/-- The members of a structure: each under a name of its own, and none left out. -/
structure KvMap (σ : Type) where
  fields : List (Field σ)
  distinct : (fields.map Field.name).Nodup
  whole : ∀ x old, fields.foldl (fun o f => f.set (f.get x) o) old = x

namespace KvMap

variable {σ : Type}

/-- `serialize_map<true>`. -/
def store (m : KvMap σ) (x : σ) (s : Section) : Section :=
  m.fields.foldl (fun s f => f.store x s) s

/-- The fields read one after the other, up to the first that throws. -/
def loadFields (s : Section) : List (Field σ) → σ → Loaded σ
  | [], x => (x, true)
  | f :: fs, x =>
    match f.load s x with
    | (x, true) => loadFields s fs x
    | (x, false) => (x, false)

/-- `serialize_map<false>`. -/
def load (m : KvMap σ) (s : Section) (x : σ) : Loaded σ := loadFields s m.fields x

/-- The calls that the reader needs for the members, and at least those for a count. -/
def need (m : KvMap σ) : Nat := m.fields.foldr (fun f n => max f.kind.need n) 4

/-- What is found of a structure that was stored: each field under its name, and nothing else of its
own. -/
theorem find_foldl (x : σ) {fs : List (Field σ)} (hdistinct : (fs.map Field.name).Nodup)
    (s : Section) :
    (∀ name ∉ fs.map Field.name,
      findStorageEntry name (fs.foldl (fun s f => f.store x s) s) = findStorageEntry name s) ∧
    ∀ f ∈ fs, findStorageEntry f.name s = none →
      findStorageEntry f.name (fs.foldl (fun s f => f.store x s) s) = f.kind.toEntry (f.get x) := by
  induction fs generalizing s with
  | nil => exact ⟨fun _ _ => rfl, fun f hf => absurd hf List.not_mem_nil⟩
  | cons head fs ih =>
    obtain ⟨hnew, hdistinct⟩ := List.nodup_cons.1 hdistinct
    obtain ⟨hother, hown⟩ := ih hdistinct (head.store x s)
    have hstore : ∀ name, findStorageEntry name (head.store x s) =
        if head.name = name then (head.kind.toEntry (head.get x)).or (findStorageEntry name s)
        else findStorageEntry name s := by
      intro name
      rcases head.store_cases x s with ⟨hnone, heq⟩ | ⟨e, hsome, heq⟩
      · rw [heq, hnone]
        exact (ite_self _).symm
      · rw [heq, hsome]
        exact find_setValue head.name e s name
    refine ⟨fun name hname => ?_, fun f hf hnone => ?_⟩
    · obtain ⟨hne, hname⟩ := not_or.1 (mt List.mem_cons.2 hname)
      rw [List.foldl_cons, hother name hname, hstore, if_neg fun heq => hne heq.symm]
    · rcases List.mem_cons.1 hf with rfl | hf
      · rw [List.foldl_cons, hother _ hnew, hstore, if_pos rfl, hnone, Option.or_none]
      · have hne : head.name ≠ f.name := fun heq => hnew (heq ▸ List.mem_map_of_mem hf)
        refine hown f hf ?_
        rw [hstore, if_neg hne, hnone]

/-- Fields that can all be read fill the structure. -/
theorem loadFields_of (s : Section) (x : σ) {fs : List (Field σ)}
    (h : ∀ f ∈ fs, ∀ old, f.kind.ofEntry (findStorageEntry f.name s) old = (f.get x, true))
    (old : σ) : loadFields s fs old = (fs.foldl (fun o f => f.set (f.get x) o) old, true) := by
  induction fs generalizing old with
  | nil => rfl
  | cons f fs ih =>
    obtain ⟨hf, hfs⟩ := List.forall_mem_cons.1 h
    have hload : f.load s old = (f.set (f.get x) old, true) := by
      unfold Field.load
      rw [hf]
      rfl
    rw [loadFields, hload]
    exact ih hfs _

theorem load_store (m : KvMap σ) (x old : σ) : m.load (m.store x []) old = (x, true) := by
  rw [load, loadFields_of _ x (fun f hf old => ?_), m.whole]
  rw [show findStorageEntry f.name (m.store x []) = f.kind.toEntry (f.get x) from
    (find_foldl x m.distinct []).2 f hf rfl, f.kind.back]

/-! ### What a stored structure needs -/

/-- Storing a structure keeps the order of the names. -/
theorem sorted_foldl (x : σ) (fs : List (Field σ)) {s : Section} (h : Sorted s) :
    Sorted (fs.foldl (fun s f => f.store x s) s) := by
  induction fs generalizing s with
  | nil => exact h
  | cons f fs ih =>
    refine ih (s := f.store x s) ?_
    rcases f.store_cases x s with ⟨-, heq⟩ | ⟨e, -, heq⟩
    · rw [heq]
      exact h
    · rw [heq]
      exact h.setValue f.name e

/-- What is in the section after a structure was stored. -/
theorem mem_foldl (x : σ) {fs : List (Field σ)} {s : Section} {pair : Blob × StorageEntry}
    (h : pair ∈ fs.foldl (fun s f => f.store x s) s) :
    pair ∈ s ∨ ∃ f ∈ fs, f.kind.toEntry (f.get x) = some pair.2 := by
  induction fs generalizing s with
  | nil => exact .inl h
  | cons f fs ih =>
    rcases ih (s := f.store x s) h with hin | ⟨g, hg, hentry⟩
    · rcases f.store_cases x s with ⟨-, heq⟩ | ⟨e, hentry, heq⟩
      · rw [heq] at hin
        exact .inl hin
      · rw [heq] at hin
        rcases mem_setValue hin with rfl | hin
        · exact .inr ⟨f, List.mem_cons_self .., hentry⟩
        · exact .inl hin
    · exact .inr ⟨g, List.mem_cons_of_mem _ hg, hentry⟩

/-- A field needs no more calls than the structure. -/
theorem need_le {m : KvMap σ} {f : Field σ} (hf : f ∈ m.fields) : f.kind.need ≤ m.need := by
  unfold need
  generalize m.fields = fs at hf
  induction fs with
  | nil => exact absurd hf List.not_mem_nil
  | cons head fs ih =>
    rcases List.mem_cons.1 hf with rfl | hf
    · exact Nat.le_max_left ..
    · exact Nat.le_trans (ih hf) (Nat.le_max_right ..)

theorem four_le_need (m : KvMap σ) : 4 ≤ m.need := by
  unfold need
  induction m.fields with
  | nil => exact Nat.le_refl 4
  | cons f fs ih => exact Nat.le_trans ih (Nat.le_max_right ..)

end KvMap

/-- The packed form of one entry is part of that of all. -/
theorem of_packEntries {entries : List (Blob × StorageEntry)} {bytes : Blob}
    (h : packEntries entries = some bytes) {pair : Blob × StorageEntry} (hpair : pair ∈ entries) :
    pair.1.length < 255 ∧ ∃ b, packEntry pair.2 = some b ∧ b.length ≤ bytes.length := by
  induction entries generalizing bytes with
  | nil => exact absurd hpair List.not_mem_nil
  | cons head entries ih =>
    obtain ⟨name, e⟩ := head
    unfold packEntries at h
    split at h
    · cases h
    · rename_i hname
      obtain ⟨front, hfront, h⟩ := Option.bind_eq_some_iff.1 h
      obtain ⟨back, hback, h⟩ := Option.bind_eq_some_iff.1 h
      cases h
      simp only [List.length_append]
      rcases List.mem_cons.1 hpair with rfl | hpair
      · exact ⟨not_not.1 hname, front, hfront, by omega⟩
      · obtain ⟨hshort, b, hb, hlen⟩ := ih hback hpair
        exact ⟨hshort, b, hb, by omega⟩

/-- The reader gets through a stored structure. -/
theorem KvMap.section_fits {σ : Type} (m : KvMap σ) (x : σ) {count bytes : Blob}
    (hcount : packVarint (m.store x []).length = some count)
    (hpack : packEntries (m.store x []) = some bytes) (hlen : bytes.length < maxStringLenPossible) :
    Sorted (m.store x []) ∧ (m.store x []).length ≤ maxVarint ∧
      EntriesFit (m.store x []) m.need := by
  refine ⟨sorted_foldl x m.fields .nil, le_maxVarint hcount, entriesFit_of fun pair hpair => ?_⟩
  obtain ⟨hname, b, hb, hle⟩ := of_packEntries hpack hpair
  refine ⟨Nat.lt_succ_of_lt hname, ?_⟩
  rcases mem_foldl x hpair with hnone | ⟨f, hf, hentry⟩
  · exact absurd hnone List.not_mem_nil
  · exact (f.kind.fits hentry hb (Nat.lt_of_le_of_lt hle hlen)).mono (need_le hf)

/-! ## Members that are structures -/

/-- `open_section` of what was found; loading puts an empty section there if it is none. -/
def childSection : Option StorageEntry → Section
  | some (.object entries) => entries
  | _ => []

/-- The packed form of one section is part of that of all. -/
theorem of_packObjects {ss : List Section} {bytes : Blob} (h : packObjects ss = some bytes)
    {s : Section} (hs : s ∈ ss) :
    ∃ count body, packVarint s.length = some count ∧ packEntries s = some body ∧
      body.length ≤ bytes.length := by
  induction ss generalizing bytes with
  | nil => exact absurd hs List.not_mem_nil
  | cons head ss ih =>
    unfold packObjects at h
    obtain ⟨count, hcount, h⟩ := Option.bind_eq_some_iff.1 h
    obtain ⟨body, hbody, h⟩ := Option.bind_eq_some_iff.1 h
    obtain ⟨back, hback, h⟩ := Option.bind_eq_some_iff.1 h
    cases h
    simp only [List.length_append]
    rcases List.mem_cons.1 hs with rfl | hs
    · exact ⟨count, body, hcount, hbody, by omega⟩
    · obtain ⟨count', body', hcount', hbody', hle⟩ := ih hback hs
      exact ⟨count', body', hcount', hbody', by omega⟩

namespace Kind

variable {σ : Type}

/-- `serialize_t_obj`. -/
def object (m : KvMap σ) : Kind σ where
  toEntry x := some (.object (m.store x []))
  ofEntry e old := m.load (childSection e) old
  need := m.need + 3
  back x old := m.load_store x old
  fits {x e bytes} he hpack hlen := by
    cases he
    unfold packEntry at hpack
    obtain ⟨count, hcount, hpack⟩ := Option.bind_eq_some_iff.1 hpack
    obtain ⟨body, hbody, hpack⟩ := Option.bind_eq_some_iff.1 hpack
    cases hpack
    simp only [List.length_append] at hlen
    have hneed := m.four_le_need
    obtain ⟨hsorted, hcounted, hfits⟩ := m.section_fits x hcount hbody (by omega)
    exact ⟨by omega, hsorted, hcounted, hfits⟩

/-- Every section is loaded into a new value; the one that throws is not taken. -/
def loadSections (m : KvMap σ) (new : σ) : List Section → Loaded (List σ)
  | [] => ([], true)
  | s :: ss =>
    match m.load s new with
    | (x, true) => (loadSections m new ss).map (x :: ·) id
    | (_, false) => ([], false)

/-- Structures stored one by one are loaded one by one. -/
theorem loadSections_map (m : KvMap σ) (new : σ) (xs : List σ) :
    loadSections m new (xs.map fun x => m.store x []) = (xs, true) := by
  induction xs with
  | nil => rfl
  | cons x xs ih =>
    rw [List.map_cons, loadSections, m.load_store, ih]
    rfl

/-- `serialize_stl_container_t_obj`; `new` is a value of no members yet. -/
def objects (m : KvMap σ) (new : σ) : Kind (List σ) where
  toEntry
    | [] => none
    | x :: xs => some (.array (.objects ((x :: xs).map fun x => m.store x [])))
  ofEntry
    | some (.array (.objects ss)), _ => loadSections m new ss
    | _, _ => ([], true)
  need := m.need + 5
  back xs old := by
    cases xs with
    | nil => rfl
    | cons x xs => exact loadSections_map m new (x :: xs)
  fits {xs e bytes} he hpack hlen := by
    cases xs with
    | nil => cases he
    | cons x xs =>
      cases he
      unfold packEntry packArray at hpack
      obtain ⟨count, hcount, hpack⟩ := Option.bind_eq_some_iff.1 hpack
      obtain ⟨body, hbody, hpack⟩ := Option.bind_eq_some_iff.1 hpack
      cases hpack
      simp only [List.length_append] at hlen
      have hneed := m.four_le_need
      refine ⟨by omega, le_maxVarint hcount, objectsFit_of fun s hs => ?_⟩
      obtain ⟨count', body', hcount', hbody', hle⟩ := of_packObjects hbody hs
      obtain ⟨y, hy, rfl⟩ := List.mem_map.1 hs
      obtain ⟨hsorted, hcounted, hfits⟩ := m.section_fits y hcount' hbody' (by omega)
      exact ⟨by omega, hsorted, hcounted, hfits⟩

end Kind

/-! ## Whole structures -/

namespace KvMap

variable {σ : Type}

/-- `store_t_to_binary`. -/
def storeTToBinary (m : KvMap σ) (x : σ) : Option Blob := storeToBinary (m.store x [])

/-- `load_t_from_binary`, into `out`. -/
def loadTFromBinary (m : KvMap σ) (out : σ) (binaryBuff : Blob) : Loaded σ :=
  match loadFromBinary binaryBuff with
  | none => (out, false)
  | some root => m.load root out

/-- The structure that `buff_to_t_adapter` hands over: what was loaded of a storage, all of it or
not. -/
def inStruct (m : KvMap σ) (new : σ) (inBuff : Blob) : Option σ :=
  (loadFromBinary inBuff).map fun root => (m.load root new).1

/-- A stored structure is one the reader gets through. -/
theorem fits_of_storeTToBinary (m : KvMap σ) (hneed : m.need < recursionBudget) {x : σ}
    {bytes : Blob} (hstore : m.storeTToBinary x = some bytes)
    (hlen : bytes.length < maxStringLenPossible) :
    SectionFits (m.store x []) recursionBudget := by
  obtain ⟨body, hbody, hheader⟩ := Option.bind_eq_some_iff.1 hstore
  obtain ⟨count, hcount, hentries⟩ := Option.bind_eq_some_iff.1 hbody
  obtain ⟨tail, htail, hentries⟩ := Option.bind_eq_some_iff.1 hentries
  cases hheader
  cases hentries
  simp only [List.length_append] at hlen
  have hfour := m.four_le_need
  obtain ⟨hsorted, hcounted, hfits⟩ := m.section_fits x hcount htail (by omega)
  exact ⟨by decide, hsorted, hcounted, hfits.mono (Nat.le_sub_one_of_lt hneed)⟩

/-- The structure as it was stored, out of its bytes. -/
theorem loadTFromBinary_storeTToBinary (m : KvMap σ) (hneed : m.need < recursionBudget) {x : σ}
    {bytes : Blob} (hstore : m.storeTToBinary x = some bytes)
    (hlen : bytes.length < maxStringLenPossible) (rest : Blob) (out : σ) :
    m.loadTFromBinary out (bytes ++ rest) = (x, true) := by
  unfold loadTFromBinary
  rw [loadFromBinary_storeToBinary (m.fits_of_storeTToBinary hneed hstore hlen) hstore]
  exact m.load_store x out

/-- A structure that was stored is loaded again. -/
theorem inStruct_storeTToBinary (m : KvMap σ) (hneed : m.need < recursionBudget) {x : σ}
    {bytes : Blob} (hstore : m.storeTToBinary x = some bytes)
    (hlen : bytes.length < maxStringLenPossible) (rest : Blob) (new : σ) :
    m.inStruct new (bytes ++ rest) = some x := by
  unfold inStruct
  rw [loadFromBinary_storeToBinary (m.fits_of_storeTToBinary hneed hstore hlen) hstore,
    Option.map_some, m.load_store]

end KvMap

end DarknetSpace.PortableStorage
