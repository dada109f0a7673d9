import DarknetSpace.Format.StorageTrip

/-!
# What was read can be written and read again

A byte string need not be as the writer would have written it: size marks may be too
long, names in any order and more than once. What the reader makes of it is nevertheless a
storage that the writer takes: sorted, with strings that are not too long, and nested
no deeper than the guard allows. Only a name may be too long: the reader takes 255 bytes
and the writer does not (`NamesShort`).

`ReadsFit` says of all readers at once, at a number of calls left, that what they return
fits into that number; `readsFit` proves it by strong induction on the number, one lemma
for each reader. The depth is why the number of calls and not the input is what the
induction is on: every call that reads a value is one of them.

Main results: `comes_back_iff`, which roots come back, and `load_store_load`, that those
that were loaded do unless a name is too long.
-/

namespace DarknetSpace.PortableStorage

variable {n : Nat}

/-! ## What is read can be read again -/

theorem of_bind {α β : Type} {x : Except StorageError α} {f : α → Except StorageError β} {b : β}
    (h : (x >>= f) = .ok b) : ∃ a, x = .ok a ∧ f a = .ok b := by
  cases x with
  | error e => cases h
  | ok a => exact ⟨a, rfl, h⟩

section Back

variable {s s' : Blob}

/-- What a successful read says: a call was left, and the bytes are as many as asked for. -/
theorem of_read {count : Nat} (h : read count n s = .ok (bytes, s')) :
    1 ≤ n ∧ bytes.length = count := by
  rcases n with _ | n
  · cases h
  · rw [read] at h
    split at h
    · cases h
    · rename_i hlen
      cases h
      exact ⟨by omega, List.length_take_of_le (Nat.le_of_not_lt hlen)⟩

/-- A number that was read fits its bytes. -/
theorem of_readPod {size v : Nat} (h : readPod size n s = .ok (v, s')) :
    2 ≤ n ∧ v < 256 ^ size := by
  rcases n with _ | n
  · cases h
  · obtain ⟨⟨bytes, s₁⟩, hread, h⟩ := of_bind h
    obtain ⟨hn, hlen⟩ := of_read hread
    cases h
    exact ⟨by omega, hlen ▸ podOfBytes_lt bytes⟩

theorem of_readValue {size v : Nat} (h : readValue size n s = .ok (v, s')) :
    3 ≤ n ∧ v < 256 ^ size := by
  rcases n with _ | n
  · cases h
  · obtain ⟨hn, hv⟩ := of_readPod h
    exact ⟨by omega, hv⟩

theorem markedSize_le (b : UInt8) : markedSize b ≤ 8 := by
  unfold markedSize
  split <;> decide

/-- A size that was read could be written. -/
theorem of_readVarint {v : Nat} (h : readVarint n s = .ok (v, s')) : 4 ≤ n ∧ v ≤ maxVarint := by
  rcases n with _ | n
  · cases h
  · rcases s with _ | ⟨b, s⟩
    · cases h
    · obtain ⟨⟨w, s₁⟩, hread, h⟩ := of_bind h
      obtain ⟨hn, hw⟩ := of_readValue hread
      have hbound : 256 ^ markedSize b ≤ 256 ^ 8 := Nat.pow_le_pow_right (by omega) (markedSize_le b)
      cases h
      refine ⟨by omega, ?_⟩
      unfold maxVarint
      omega

/-- A string that was read is shorter than the limit. -/
theorem of_readString {v : Blob} (h : readString n s = .ok (v, s')) :
    5 ≤ n ∧ v.length < maxStringLenPossible := by
  rcases n with _ | n
  · cases h
  · obtain ⟨⟨len, s₁⟩, hlen, h⟩ := of_bind h
    obtain ⟨hn, -⟩ := of_readVarint hlen
    dsimp only at h
    split at h
    · cases h
    · split at h
      · cases h
      · rename_i hmax hroom
        cases h
        rw [List.length_take_of_le (Nat.le_of_not_lt hroom)]
        exact ⟨by omega, not_not.1 hmax⟩

theorem of_readStringValue {v : Blob} (h : readStringValue n s = .ok (v, s')) :
    6 ≤ n ∧ v.length < maxStringLenPossible := by
  rcases n with _ | n
  · cases h
  · obtain ⟨hn, hv⟩ := of_readString h
    exact ⟨by omega, hv⟩

/-- A name that was read has a length of one byte. -/
theorem of_readSecName {name : Blob} (h : readSecName n s = .ok (name, s')) :
    name.length < 256 := by
  rcases n with _ | n
  · cases h
  · obtain ⟨⟨len, s₁⟩, hlen, h⟩ := of_bind h
    obtain ⟨-, hname⟩ := of_read h
    rw [hname]
    exact (of_readPod hlen).2

/-- Elements that were read: as many as asked for, each with the property its reader gives. -/
theorem of_readAll {α : Type} {f : Read α} {P : α → Prop} {count : Nat} {xs : List α}
    (hf : ∀ {s x s'}, f s = .ok (x, s') → P x) (h : readAll f count s = .ok (xs, s')) :
    xs.length = count ∧ ∀ x ∈ xs, P x := by
  induction count generalizing s xs with
  | zero =>
    cases h
    exact ⟨rfl, fun x hx => absurd hx List.not_mem_nil⟩
  | succ count ih =>
    obtain ⟨⟨x, s₁⟩, hx, h⟩ := of_bind h
    obtain ⟨⟨rest, s₂⟩, hrest, h⟩ := of_bind h
    cases h
    obtain ⟨hlen, hall⟩ := ih hrest
    exact ⟨congrArg (· + 1) hlen, List.forall_mem_cons.2 ⟨hf hx, hall⟩⟩

/-- A counted array that was read. -/
theorem of_readAe {α : Type} {f : Nat → Read α} {P : α → Prop} {xs : List α}
    (hf : ∀ {s x s'}, f (n - 1) s = .ok (x, s') → P x) (h : readAe f n s = .ok (xs, s')) :
    5 ≤ n ∧ xs.length ≤ maxVarint ∧ ∀ x ∈ xs, P x := by
  rcases n with _ | n
  · cases h
  · obtain ⟨⟨size, s₁⟩, hsize, h⟩ := of_bind h
    obtain ⟨hn, hbound⟩ := of_readVarint hsize
    obtain ⟨rfl, hall⟩ := of_readAll hf h
    exact ⟨by omega, hbound, hall⟩

end Back

/-! ### Sections -/

/-- What is in a section after an insertion was in it or is new. -/
theorem mem_insertEntry {name : Blob} {e : StorageEntry} {entries : Section}
    {pair : Blob × StorageEntry} (h : pair ∈ insertEntry name e entries) :
    pair = (name, e) ∨ pair ∈ entries := by
  induction entries with
  | nil => exact .inl (List.mem_singleton.1 h)
  | cons head entries ih =>
    unfold insertEntry at h
    split at h
    · exact List.mem_cons.1 h
    · split at h
      · rcases List.mem_cons.1 h with rfl | h
        · exact .inr (List.mem_cons_self ..)
        · exact (ih h).imp_right (List.mem_cons_of_mem _)
      · exact .inr h

/-- An insertion keeps the order. -/
theorem insertEntry_keepsSorted (name : Blob) (e : StorageEntry) {entries : Section}
    (h : Sorted entries) : Sorted (insertEntry name e entries) := by
  induction entries with
  | nil => exact List.pairwise_singleton ..
  | cons head entries ih =>
    obtain ⟨hbefore, htail⟩ := List.pairwise_cons.1 h
    unfold insertEntry
    split
    · rename_i hlt
      refine List.pairwise_cons.2 ⟨fun pair hpair => ?_, h⟩
      rcases List.mem_cons.1 hpair with rfl | hpair
      · exact hlt
      · exact List.lt_trans hlt (hbefore pair hpair)
    · split
      · rename_i hlt
        refine List.pairwise_cons.2 ⟨fun pair hpair => ?_, ih htail⟩
        rcases mem_insertEntry hpair with rfl | hpair
        · exact hlt
        · exact hbefore pair hpair
      · exact h

/-- An insertion adds at most one entry. -/
theorem length_insertEntry_le (name : Blob) (e : StorageEntry) (entries : Section) :
    (insertEntry name e entries).length ≤ entries.length + 1 := by
  induction entries with
  | nil => exact Nat.le_refl _
  | cons head entries ih =>
    unfold insertEntry
    split
    · exact Nat.le_refl _
    · split
      · exact Nat.succ_le_succ ih
      · exact Nat.le_succ _

/-- A map of what was inserted, sorted by name. -/
theorem of_insertAll (pairs : List (Blob × StorageEntry)) :
    Sorted (insertAll pairs) ∧ (insertAll pairs).length ≤ pairs.length ∧
      ∀ pair ∈ insertAll pairs, pair ∈ pairs := by
  have hfold : ∀ (pairs : List (Blob × StorageEntry)) (entries : Section), Sorted entries →
      let result := pairs.foldl (fun entries pair => insertEntry pair.1 pair.2 entries) entries
      Sorted result ∧ result.length ≤ entries.length + pairs.length ∧
        ∀ pair ∈ result, pair ∈ entries ∨ pair ∈ pairs := by
    intro pairs
    induction pairs with
    | nil => exact fun entries h => ⟨h, Nat.le_refl _, fun pair hpair => .inl hpair⟩
    | cons head pairs ih =>
      intro entries h
      obtain ⟨hsorted, hlen, hmem⟩ := ih _ (insertEntry_keepsSorted head.1 head.2 h)
      refine ⟨hsorted, ?_, fun pair hpair => ?_⟩
      · have := length_insertEntry_le head.1 head.2 entries
        rw [List.length_cons]
        exact Nat.le_trans hlen (by omega)
      · rcases hmem pair hpair with hin | hin
        · rcases mem_insertEntry hin with rfl | hin
          · exact .inr (List.mem_cons_self ..)
          · exact .inl hin
        · exact .inr (List.mem_cons_of_mem _ hin)
  obtain ⟨hsorted, hlen, hmem⟩ := hfold pairs [] List.Pairwise.nil
  rw [List.length_nil, Nat.zero_add] at hlen
  refine ⟨hsorted, hlen, fun pair hpair => ?_⟩
  exact (hmem pair hpair).resolve_left List.not_mem_nil

/-! ### Trees with few calls left -/

mutual

/-- With more calls left more fits. -/
theorem EntryFits.mono {n m : Nat} (h : n ≤ m) :
    ∀ {e : StorageEntry}, EntryFits e n → EntryFits e m
  | .pod _ _, hfits => Nat.le_trans hfits h
  | .string _, hfits => ⟨Nat.le_trans hfits.1 h, hfits.2⟩
  | .object _, hfits =>
    ⟨Nat.le_trans hfits.1 h, hfits.2.1, hfits.2.2.1,
      EntriesFit.mono (Nat.sub_le_sub_right h 3) hfits.2.2.2⟩
  | .array _, hfits => ArrayFits.mono (Nat.sub_le_sub_right h 1) hfits

/-- With more calls left more fits. -/
theorem ArrayFits.mono {n m : Nat} (h : n ≤ m) :
    ∀ {a : ArrayEntry}, ArrayFits a n → ArrayFits a m
  | .pods _ _, hfits => ⟨Nat.le_trans hfits.1 h, hfits.2⟩
  | .strings _, hfits =>
    ⟨Nat.le_trans hfits.1 h, hfits.2.1, fun s hs =>
      ⟨Nat.le_trans (hfits.2.2 s hs).1 h, (hfits.2.2 s hs).2⟩⟩
  | .objects _, hfits => ⟨Nat.le_trans hfits.1 h, hfits.2.1, ObjectsFit.mono h hfits.2.2⟩
  | .arrays _, hfits => ⟨Nat.le_trans hfits.1 h, hfits.2⟩

theorem EntriesFit.mono {n m : Nat} (h : n ≤ m) :
    ∀ {entries : List (Blob × StorageEntry)}, EntriesFit entries n → EntriesFit entries m
  | [], _ => trivial
  | (_, _) :: _, hfits =>
    ⟨hfits.1, EntryFits.mono h hfits.2.1, EntriesFit.mono h hfits.2.2⟩

theorem ObjectsFit.mono {n m : Nat} (h : n ≤ m) :
    ∀ {ss : List (List (Blob × StorageEntry))}, ObjectsFit ss n → ObjectsFit ss m
  | [], _ => trivial
  | _ :: _, hfits =>
    ⟨⟨Nat.le_trans hfits.1.1 h, hfits.1.2.1, hfits.1.2.2.1,
      EntriesFit.mono (Nat.sub_le_sub_right h 4) hfits.1.2.2.2⟩, ObjectsFit.mono h hfits.2⟩

end

/-- Entries that fit one by one. -/
theorem entriesFit_of {entries : Section} {n : Nat}
    (h : ∀ pair ∈ entries, pair.1.length < 256 ∧ EntryFits pair.2 n) : EntriesFit entries n := by
  induction entries with
  | nil => trivial
  | cons pair entries ih =>
    obtain ⟨hpair, hentries⟩ := List.forall_mem_cons.1 h
    exact ⟨hpair.1, hpair.2, ih hentries⟩

/-- Sections that fit one by one. -/
theorem objectsFit_of {ss : List Section} {n : Nat}
    (h : ∀ s ∈ ss, 8 ≤ n ∧ Sorted s ∧ s.length ≤ maxVarint ∧ EntriesFit s (n - 4)) :
    ObjectsFit ss n := by
  induction ss with
  | nil => trivial
  | cons s ss ih =>
    obtain ⟨hs, hss⟩ := List.forall_mem_cons.1 h
    exact ⟨hs, ih hss⟩

/-- What the readers of trees can come by with `n` calls left. -/
structure ReadsFit (n : Nat) : Prop where
  entry : ∀ {s e s'}, loadStorageEntry n s = .ok (e, s') → EntryFits e n
  array : ∀ {type s a s'}, loadStorageArrayEntry n type s = .ok (a, s') → ArrayFits a n
  sec : ∀ {s entries s'}, readSection n s = .ok (entries, s') → SectionFits entries n

/-- An entry that was read fits, if all that is read with fewer calls does. -/
theorem of_loadStorageEntry {s s' : Blob} {e : StorageEntry}
    (ih : ∀ m ≤ n, ReadsFit m) (h : loadStorageEntry (n + 1) s = .ok (e, s')) :
    EntryFits e (n + 1) := by
  rw [loadStorageEntry] at h
  obtain ⟨⟨type, s₁⟩, htype, h⟩ := of_bind h
  dsimp only at h
  by_cases hflag : serializeFlagArray ≤ type
  · rw [if_pos hflag] at h
    obtain ⟨⟨a, s₂⟩, ha, h⟩ := of_bind h
    cases h
    exact (ih n (Nat.le_refl n)).array ha
  · rw [if_neg hflag] at h
    by_cases hstring : type = serializeTypeString
    · rw [if_pos hstring] at h
      obtain ⟨⟨v, s₂⟩, hv, h⟩ := of_bind h
      cases h
      rcases n with _ | n
      · cases hv
      · obtain ⟨hn, hlen⟩ := of_readStringValue hv
        exact ⟨by omega, hlen⟩
    · rw [if_neg hstring] at h
      by_cases hobject : type = serializeTypeObject
      · rw [if_pos hobject] at h
        obtain ⟨⟨entries, s₂⟩, hentries, h⟩ := of_bind h
        cases h
        rcases n with _ | n
        · cases hentries
        · rw [readSeSection] at hentries
          obtain ⟨hn, hsorted, hlen, hfits⟩ := (ih n (Nat.le_succ n)).sec hentries
          exact ⟨by omega, hsorted, hlen, hfits⟩
      · rw [if_neg hobject] at h
        by_cases harray : type = serializeTypeArray
        · rw [if_pos harray] at h
          obtain ⟨⟨a, s₂⟩, ha, h⟩ := of_bind h
          cases h
          rcases n with _ | n
          · rw [readSeArray] at ha
            cases ha
          · rw [readSeArray] at ha
            obtain ⟨⟨inner, s₃⟩, hinner, ha⟩ := of_bind ha
            dsimp only at ha
            split at ha
            · exact ((ih n (Nat.le_succ n)).array ha).mono (Nat.le_succ n)
            · cases ha
        · rw [if_neg harray] at h
          split at h
          · cases h
          · rename_i t ht
            obtain ⟨⟨v, s₂⟩, hv, h⟩ := of_bind h
            cases h
            rcases n with _ | n
            · cases hv
            · obtain ⟨⟨w, s₃⟩, hw, hv⟩ := of_bind hv
              have := (of_readPod hw).1
              show 4 ≤ n + 1 + 1
              omega

/-- The same for a section among sections. -/
theorem of_readSectionValue {s s' : Blob} {entries : Section} (ih : ∀ m ≤ n, ReadsFit m)
    (h : readSectionValue n s = .ok (entries, s')) :
    6 ≤ n ∧ Sorted entries ∧ entries.length ≤ maxVarint ∧ EntriesFit entries (n - 2) := by
  rcases n with _ | n
  · rw [readSectionValue] at h
    cases h
  · rw [readSectionValue] at h
    obtain ⟨hn, hfits⟩ := (ih n (Nat.le_succ n)).sec h
    exact ⟨by omega, hfits⟩

/-- The same for an array. -/
theorem of_loadStorageArrayEntry {type : Nat} {s s' : Blob} {a : ArrayEntry}
    (ih : ∀ m ≤ n, ReadsFit m) (h : loadStorageArrayEntry (n + 1) type s = .ok (a, s')) :
    ArrayFits a (n + 1) := by
  rw [loadStorageArrayEntry] at h
  dsimp only at h
  by_cases hstring : type % serializeFlagArray = serializeTypeString
  · rw [if_pos hstring] at h
    obtain ⟨⟨ss, s₁⟩, hss, h⟩ := of_bind h
    cases h
    obtain ⟨hn, hlen, hall⟩ := of_readAe (fun hv => of_readStringValue hv) hss
    exact ⟨by omega, hlen, fun s hs => ⟨by have := (hall s hs).1; omega, (hall s hs).2⟩⟩
  · rw [if_neg hstring] at h
    by_cases hobject : type % serializeFlagArray = serializeTypeObject
    · rw [if_pos hobject] at h
      obtain ⟨⟨ss, s₁⟩, hss, h⟩ := of_bind h
      cases h
      rcases n with _ | n
      · rw [readAeSection] at hss
        cases hss
      · rw [readAeSection] at hss
        obtain ⟨⟨size, s₂⟩, hsize, hss⟩ := of_bind hss
        obtain ⟨hn, hbound⟩ := of_readVarint hsize
        obtain ⟨rfl, hall⟩ := of_readAll
          (fun hv => of_readSectionValue (fun m hm => ih m (Nat.le_succ_of_le hm)) hv) hss
        refine ⟨by omega, hbound, objectsFit_of fun s hs => ?_⟩
        obtain ⟨hroom, hsorted, hlen, hfits⟩ := hall s hs
        exact ⟨by omega, hsorted, hlen, hfits⟩
    · rw [if_neg hobject] at h
      by_cases harray : type % serializeFlagArray = serializeTypeArray
      · rw [if_pos harray] at h
        obtain ⟨⟨as, s₁⟩, has, h⟩ := of_bind h
        cases h
        -- an element is never come by
        obtain ⟨hn, -, hall⟩ := of_readAe (P := fun _ => False) (fun hv => by cases hv) has
        exact ⟨by omega, List.eq_nil_iff_forall_not_mem.2 hall⟩
      · rw [if_neg harray] at h
        split at h
        · cases h
        · obtain ⟨⟨vs, s₁⟩, hvs, h⟩ := of_bind h
          cases h
          obtain ⟨hn, hlen, -⟩ := of_readAe (P := fun _ => True) (fun _ => trivial) hvs
          exact ⟨by omega, hlen⟩

/-- The same for a section: its entries went in one by one. -/
theorem of_readSection {s s' : Blob} {entries : Section}
    (ih : ∀ m ≤ n, ReadsFit m) (h : readSection (n + 1) s = .ok (entries, s')) :
    SectionFits entries (n + 1) := by
  rw [readSection_succ] at h
  obtain ⟨⟨count, s₁⟩, hcount, h⟩ := of_bind h
  obtain ⟨⟨pairs, s₂⟩, hpairs, h⟩ := of_bind h
  cases h
  obtain ⟨hn, hbound⟩ := of_readVarint hcount
  obtain ⟨rfl, hall⟩ := of_readAll (P := fun pair => pair.1.length < 256 ∧ EntryFits pair.2 n)
    (fun {s pair s'} hnamed => by
      obtain ⟨⟨name, s₃⟩, hname, hnamed⟩ := of_bind hnamed
      obtain ⟨⟨e, s₄⟩, he, hnamed⟩ := of_bind hnamed
      cases hnamed
      exact ⟨of_readSecName hname, (ih n (Nat.le_refl n)).entry he⟩) hpairs
  obtain ⟨hsorted, hlen, hmem⟩ := of_insertAll pairs
  exact ⟨by omega, hsorted, Nat.le_trans hlen hbound,
    entriesFit_of fun pair hpair => hall pair (hmem pair hpair)⟩

/-- All that is read fits: by strong induction on the calls left. -/
theorem readsFit (n : Nat) : ReadsFit n := by
  induction n using Nat.strong_induction_on with
  | _ n ih =>
    rcases n with _ | n
    · refine ⟨fun h => ?_, fun h => ?_, fun h => ?_⟩
      · rw [loadStorageEntry] at h
        cases h
      · rw [loadStorageArrayEntry] at h
        cases h
      · rw [readSection] at h
        cases h
    · have ih : ∀ m ≤ n, ReadsFit m := fun m hm => ih m (Nat.lt_succ_of_le hm)
      exact ⟨of_loadStorageEntry ih, of_loadStorageArrayEntry ih, of_readSection ih⟩

/-! ### Names -/

mutual

/-- No name of the entry takes the 255 bytes that the reader allows and the writer does not. -/
def EntryNames : StorageEntry → Prop
  | .pod _ _ | .string _ => True
  | .object entries => NamesShort entries
  | .array a => ArrayNames a

/-- The names within an array. -/
def ArrayNames : ArrayEntry → Prop
  | .pods _ _ | .strings _ => True
  | .objects ss => ObjectsNames ss
  -- the reader gets through none
  | .arrays _ => True

/-- All names are shorter than 255 bytes, also within the values. -/
def NamesShort : List (Blob × StorageEntry) → Prop
  | [] => True
  | (name, e) :: entries => name.length < 255 ∧ EntryNames e ∧ NamesShort entries

/-- The names within the sections of an array. -/
def ObjectsNames : List (List (Blob × StorageEntry)) → Prop
  | [] => True
  | s :: ss => NamesShort s ∧ ObjectsNames ss

end

theorem packVarint_some {v : Nat} (h : v ≤ maxVarint) : ∃ b, packVarint v = some b := by
  unfold packVarint
  split_ifs <;> exact ⟨_, rfl⟩

theorem putString_some {s : Blob} (h : s.length < maxStringLenPossible) :
    ∃ b, putString s = some b := by
  have hmax : maxStringLenPossible ≤ maxVarint := by decide
  obtain ⟨size, hsize⟩ := packVarint_some (Nat.le_trans (Nat.le_of_lt h) hmax)
  exact ⟨size ++ s, by rw [putString, hsize]; rfl⟩

/-- Strings within the limit can be written. -/
theorem putStrings_some {ss : List Blob} (h : ∀ s ∈ ss, s.length < maxStringLenPossible) :
    ∃ b, putStrings ss = some b := by
  induction ss with
  | nil => exact ⟨[], rfl⟩
  | cons s ss ih =>
    obtain ⟨hs, hss⟩ := List.forall_mem_cons.1 h
    obtain ⟨b, hb⟩ := putString_some hs
    obtain ⟨tail, htail⟩ := ih hss
    exact ⟨b ++ tail, by rw [putStrings, hb, htail]; rfl⟩

mutual

/-- What the reader comes by is written, the names apart. -/
theorem packEntry_isSome {n : Nat} :
    ∀ {e : StorageEntry}, EntryFits e n → ((packEntry e).isSome ↔ EntryNames e)
  | .pod _ _, _ => ⟨fun _ => trivial, fun _ => rfl⟩
  | .string s, hfits => by
    obtain ⟨b, hb⟩ := putString_some hfits.2
    rw [packEntry, hb]
    exact ⟨fun _ => trivial, fun _ => rfl⟩
  | .object entries, hfits => by
    obtain ⟨count, hcount⟩ := packVarint_some hfits.2.2.1
    have hentries := packEntries_isSome hfits.2.2.2
    rw [packEntry, hcount]
    show (packEntries entries >>= _).isSome ↔ NamesShort entries
    rw [← hentries]
    cases packEntries entries <;> exact Iff.rfl
  | .array a, hfits => packArray_isSome (a := a) hfits

/-- What fits can be packed when its names are short enough: arrays. -/
theorem packArray_isSome {n : Nat} :
    ∀ {a : ArrayEntry}, ArrayFits a n → ((packArray a).isSome ↔ ArrayNames a)
  | .pods t vs, hfits => by
    obtain ⟨count, hcount⟩ := packVarint_some hfits.2
    rw [packArray, hcount]
    exact ⟨fun _ => trivial, fun _ => rfl⟩
  | .strings ss, hfits => by
    obtain ⟨count, hcount⟩ := packVarint_some hfits.2.1
    obtain ⟨body, hbody⟩ := putStrings_some fun s hs => (hfits.2.2 s hs).2
    rw [packArray, hcount, hbody]
    exact ⟨fun _ => trivial, fun _ => rfl⟩
  | .objects ss, hfits => by
    obtain ⟨count, hcount⟩ := packVarint_some hfits.2.1
    have hss := packObjects_isSome hfits.2.2
    rw [packArray, hcount]
    show (packObjects ss >>= _).isSome ↔ ObjectsNames ss
    rw [← hss]
    cases packObjects ss <;> exact Iff.rfl
  | .arrays as, hfits => by
    obtain ⟨-, rfl⟩ : 6 ≤ n ∧ as = [] := hfits
    exact ⟨fun _ => trivial, fun _ => rfl⟩

/-- The same for the entries of a section. -/
theorem packEntries_isSome {n : Nat} :
    ∀ {entries : List (Blob × StorageEntry)}, EntriesFit entries n →
      ((packEntries entries).isSome ↔ NamesShort entries)
  | [], _ => ⟨fun _ => trivial, fun _ => rfl⟩
  | (name, e) :: entries, hfits => by
    have he := packEntry_isSome hfits.2.1
    have hentries := packEntries_isSome hfits.2.2
    show _ ↔ name.length < 255 ∧ EntryNames e ∧ NamesShort entries
    rw [packEntries, ← he, ← hentries]
    by_cases hname : name.length < 255
    · rw [if_neg (not_not.2 hname), iff_true_intro hname, true_and]
      cases packEntry e <;> cases packEntries entries <;> simp
    · rw [if_pos hname, iff_false_intro hname, false_and]
      exact iff_of_false (fun h => by cases h) id

/-- The same for the sections of an array. -/
theorem packObjects_isSome {n : Nat} :
    ∀ {ss : List (List (Blob × StorageEntry))}, ObjectsFit ss n →
      ((packObjects ss).isSome ↔ ObjectsNames ss)
  | [], _ => ⟨fun _ => trivial, fun _ => rfl⟩
  | s :: ss, hfits => by
    obtain ⟨count, hcount⟩ := packVarint_some hfits.1.2.2.1
    have hs := packEntries_isSome hfits.1.2.2.2
    have hss := packObjects_isSome hfits.2
    show _ ↔ NamesShort s ∧ ObjectsNames ss
    rw [packObjects, hcount, ← hs, ← hss]
    cases packEntries s <;> cases packObjects ss <;> simp

end

/-! ### Whole storages again -/

theorem storeToBinary_isSome {root : Section} (hfits : SectionFits root n) :
    (storeToBinary root).isSome ↔ NamesShort root := by
  obtain ⟨-, -, hlen, hentries⟩ := hfits
  obtain ⟨count, hcount⟩ := packVarint_some hlen
  rw [storeToBinary, packSection, hcount, ← packEntries_isSome hentries]
  cases packEntries root <;> exact Iff.rfl

/-- A storage that was loaded fits. -/
theorem load_fits {source : Blob} {root : Section} (hload : loadFromBinary source = some root) :
    SectionFits root recursionBudget := by
  unfold loadFromBinary at hload
  split at hload
  · cases hload
  · split at hload
    · cases hload
    · split at hload
      · cases hload
      · rename_i hread
        cases hload
        exact (readsFit recursionBudget).sec hread

/-- The storages that come back from their bytes. -/
theorem comes_back_iff (root : Section) :
    (∃ bytes, storeToBinary root = some bytes ∧
      ∀ rest, loadFromBinary (bytes ++ rest) = some root) ↔
    SectionFits root recursionBudget ∧ NamesShort root := by
  constructor
  · rintro ⟨bytes, hstore, hload⟩
    have hfits := load_fits (hload [])
    exact ⟨hfits, (storeToBinary_isSome hfits).1 (hstore ▸ rfl)⟩
  · rintro ⟨hfits, hnames⟩
    obtain ⟨bytes, hstore⟩ := Option.isSome_iff_exists.1 ((storeToBinary_isSome hfits).2 hnames)
    exact ⟨bytes, hstore, loadFromBinary_storeToBinary hfits hstore⟩

/-- Whatever bytes a storage was loaded from, it is written again unless a name is too long for
the writer, and what is written is loaded as the same storage. -/
theorem load_store_load {source : Blob} {root : Section}
    (hload : loadFromBinary source = some root) :
    ((storeToBinary root).isSome ↔ NamesShort root) ∧
      ∀ bytes, storeToBinary root = some bytes →
        ∀ rest, loadFromBinary (bytes ++ rest) = some root := by
  have hfits := load_fits hload
  exact ⟨storeToBinary_isSome hfits, fun bytes hstore => loadFromBinary_storeToBinary hfits hstore⟩

/-- Two entries, the later name first, under a size mark of two bytes, and a byte too many. -/
def strayOrder : Blob :=
  storageBlockHeader ++ [9, 0, 1, 98, 8, 7, 1, 97, 138, 4, 8, 120, 121, 255]

theorem load_store_load_strayOrder :
    loadFromBinary strayOrder =
        some [([97], .array (.strings [[120, 121]])), ([98], .pod .uint8 7)] ∧
      ((storeToBinary [([97], .array (.strings [[120, 121]])), ([98], .pod .uint8 7)]).isSome ↔
        NamesShort [([97], .array (.strings [[120, 121]])), ([98], .pod .uint8 7)]) :=
  have hload : loadFromBinary strayOrder =
      some [([97], .array (.strings [[120, 121]])), ([98], .pod .uint8 7)] := rfl
  ⟨hload, (load_store_load hload).1⟩

end DarknetSpace.PortableStorage
