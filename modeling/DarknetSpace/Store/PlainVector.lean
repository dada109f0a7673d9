import DarknetSpace.Store.SwappedVector

/-!
# The file-backed vector is a vector

`Stored` says what the two files hold when they hold the list `xs`, up to what
stands behind it, and `Shows` that the members of the object describe it. One
lemma for each operation says how both change; a run of operations then reads
and counts what a plain list reads and counts.

Writing a shorter file does not cut it, so what stands behind the items is whatever
stood there before, and `Left` says what an operation leaves of it. Reading goes through
the cache, which may hold an item or not; `Sound` is the invariant of both, memory and
files, over a run.

Main result: `run_eq_plainRun`. From the first opening of a blank drive, every legal run
of calls, restarts among them, returns what the same calls return on a plain vector.
Legal is what the code relies on: nothing is taken from an empty vector, and the files
stay below 4 GiB.
-/

namespace DarknetSpace

open Files StateExn

namespace SwappedVector

variable {T : Type} {A : ItemArchive T}

/-! ## What the files hold -/

/-- The items file up to the end of the last item. -/
def itemBytes (A : ItemArchive T) (xs : List T) : Blob := xs.flatMap A.bytes

/-- The sizes in the index file. -/
def sizeBytes (A : ItemArchive T) (xs : List T) : Blob :=
  xs.flatMap fun x => bytesOfPod 4 (A.bytes x).length

theorem itemBytes_append (xs : List T) (x : T) :
    itemBytes A (xs ++ [x]) = itemBytes A xs ++ A.bytes x := by
  rw [itemBytes, List.flatMap_append, List.flatMap_singleton]
  rfl

theorem sizeBytes_append (xs : List T) (x : T) :
    sizeBytes A (xs ++ [x]) = sizeBytes A xs ++ bytesOfPod 4 (A.bytes x).length := by
  rw [sizeBytes, List.flatMap_append, List.flatMap_singleton]
  rfl

/-- A slot keeps the low bytes of what is put there. -/
theorem bytesOfPod_mod (n v : Nat) : bytesOfPod n (v % 256 ^ n) = bytesOfPod n v := by
  induction n generalizing v with
  | zero => rfl
  | succ n ih =>
    have hdvd : 2 ^ 8 ∣ 256 ^ (n + 1) := ⟨256 ^ n, by rw [Nat.pow_succ, Nat.mul_comm, show 2 ^ 8 = 256 from rfl]⟩
    have hlow : UInt8.ofNat (v % 256 ^ (n + 1)) = UInt8.ofNat v := by
      rw [← UInt8.toNat_inj, UInt8.toNat_ofNat', UInt8.toNat_ofNat', Nat.mod_mod_of_dvd _ hdvd]
    have hhigh : v % 256 ^ (n + 1) / 256 = v / 256 % 256 ^ n := by
      rw [Nat.pow_succ, Nat.mul_comm, Nat.mod_mul_right_div_self]
    unfold bytesOfPod
    rw [hlow, hhigh, ih]

/-- A size takes four bytes. -/
theorem sizeBytes_length (xs : List T) : (sizeBytes A xs).length = 4 * xs.length := by
  induction xs with
  | nil => rfl
  | cons x xs ih =>
    show (bytesOfPod 4 _ ++ sizeBytes A xs).length = _
    rw [List.length_append, bytesOfPod_length, ih, List.length_cons]
    omega

/-- The files can hold `xs`: neither grows past what a stream can address. -/
structure Fits (A : ItemArchive T) (xs : List T) : Prop where
  items : (itemBytes A xs).length ≤ maxSize
  indexes : 8 + 4 * xs.length ≤ maxSize

/-- The files hold `xs`, whatever stands behind it. -/
structure Stored (A : ItemArchive T) (d : Drive FileName) (xs : List T) : Prop where
  items : ∃ old, d.file .items = some (itemBytes A xs ++ old)
  indexes : ∃ old, d.file .indexes =
    some (bytesOfPod 8 xs.length ++ (sizeBytes A xs ++ old))
  fits : Fits A xs

/-- A beginning of what fits, fits. -/
theorem Fits.of_append {xs ys : List T} (h : Fits A (xs ++ ys)) : Fits A xs where
  items := by
    have := h.items
    rw [itemBytes, List.flatMap_append, List.length_append] at this
    exact Nat.le_of_add_right_le this
  indexes := by
    have := h.indexes
    rw [List.length_append] at this
    omega

theorem Fits.length_lt {xs : List T} (h : Fits A xs) : xs.length < 2 ^ 63 := by
  have := h.indexes
  unfold maxSize at this
  omega

/-- No item is as large as 4 GiB, so that its size fits its slot. -/
def Small (A : ItemArchive T) (xs : List T) : Prop := ∀ x ∈ xs, (A.bytes x).length < 2 ^ 32

/-! ## What the object knows -/

/-- Where each item starts. -/
def offsetsOf (A : ItemArchive T) (xs : List T) : List Nat :=
  (List.range xs.length).map fun i => (itemBytes A (xs.take i)).length

theorem offsetsOf_length (xs : List T) : (offsetsOf A xs).length = xs.length := by
  rw [offsetsOf, List.length_map, List.length_range]

/-- The offset of one more item is the size of the file. -/
theorem offsetsOf_append (xs : List T) (x : T) :
    offsetsOf A (xs ++ [x]) = offsetsOf A xs ++ [(itemBytes A xs).length] := by
  unfold offsetsOf
  rw [List.length_append, List.length_singleton, List.range_succ, List.map_append,
    List.map_singleton, List.take_left]
  congr 1
  apply List.map_congr_left
  intro i hi
  rw [List.take_append_of_le_length (Nat.le_of_lt (List.mem_range.1 hi))]

theorem offsetsOf_getD {xs : List T} {i : Nat} (hi : i < xs.length) :
    (offsetsOf A xs).getD i 0 = (itemBytes A (xs.take i)).length := by
  rw [List.getD_eq_getElem?_getD, offsetsOf, List.getElem?_map, List.getElem?_range hi]
  rfl

/-- The object in memory shows these items: its offsets, its cache and its length are theirs. -/
structure Shows (A : ItemArchive T) (s : SwappedVector T) (xs : List T) : Prop where
  offsets : s.mOffsets = offsetsOf A xs
  itemsFileSize : s.mItemsFileSize = (itemBytes A xs).length
  ready : s.drive.Ready
  poolSize : 0 < s.mPoolSize
  pool : s.pool.WF s.mPoolSize
  found : ∀ k v, s.pool.find? k = some v → xs[k]? = some v

theorem Shows.length_eq {s : SwappedVector T} {xs : List T} (h : Shows A s xs) :
    s.mOffsets.length = xs.length := by
  rw [h.offsets, offsetsOf_length]

/-! ## Reading -/

/-- The bytes from an item's offset on begin with the item. -/
theorem drop_offset {xs : List T} {i : Nat} (hi : i < xs.length) (old : Blob) :
    ∃ rest, (itemBytes A xs ++ old).drop (itemBytes A (xs.take i)).length =
      A.bytes xs[i] ++ rest := by
  have hsplit : itemBytes A xs =
      itemBytes A (xs.take i) ++ (A.bytes xs[i] ++ itemBytes A (xs.drop (i + 1))) := by
    calc itemBytes A xs = itemBytes A (xs.take i ++ xs[i] :: xs.drop (i + 1)) := by
          rw [← List.drop_eq_getElem_cons hi, List.take_append_drop]
      _ = _ := by
          rw [itemBytes, List.flatMap_append, List.flatMap_cons]
          rfl
  refine ⟨itemBytes A (xs.drop (i + 1)) ++ old, ?_⟩
  rw [hsplit, List.append_assoc, List.drop_left, List.append_assoc]

/-- A bounds-checked read of a plain vector. -/
def plainAt (xs : List T) (i : Nat) : SwappedOutcome T :=
  match xs[i]? with
  | some x => .value x
  | none => .threw .readIndexOverflow

/-- Reading gives what the plain vector has, and shows the same afterwards. -/
theorem subscript_spec {s : SwappedVector T} {xs : List T} (h : Shows A s xs)
    (hd : Stored A s.drive xs) (i : Nat) :
    ∃ s', Shows A s' xs ∧ s'.drive = s.drive ∧
      valueOf (subscript A i s) = (plainAt xs i, s') := by
  unfold subscript plainAt
  rw [bind_apply, get_apply]
  simp only
  cases hfind : s.pool.find? i with
  | some item =>
    have hx := h.found i item hfind
    refine ⟨{ s with pool := s.pool.touch i, mCacheHits := (s.mCacheHits + 1) % 2 ^ 64 },
      ⟨h.offsets, h.itemsFileSize, h.ready, h.poolSize, h.pool.touch i, ?_⟩, rfl, ?_⟩
    · intro k v hk
      rw [Lru.find?_touch] at hk
      exact h.found k v hk
    · rw [hx]
      rfl
  | none =>
    by_cases hi : i < xs.length
    · obtain ⟨old, hold⟩ := hd.items
      obtain ⟨rest, hrest⟩ := drop_offset (A := A) hi old
      have hread : A.read ((s.drive.contents .items).drop (s.mOffsets.getD i 0)) = some xs[i] := by
        rw [h.offsets, offsetsOf_getD hi, Drive.contents, hold, Option.getD_some, hrest,
          A.read_bytes]
      refine ⟨{ s with
          pool := s.pool.put s.mPoolSize i xs[i]
          mCacheMisses := (s.mCacheMisses + 1) % 2 ^ 64 },
        ⟨h.offsets, h.itemsFileSize, h.ready, h.poolSize, h.pool.put h.poolSize i _, ?_⟩, rfl, ?_⟩
      · intro k v hk
        by_cases hki : k = i
        · rw [hki, Lru.find?_put_self] at hk
          rw [hki, ← hk, List.getElem?_eq_getElem hi]
        · exact h.found k v (Lru.find?_of_put hki hk)
      · have hlen : ¬ s.mOffsets.length ≤ i := by
          rw [h.length_eq]
          omega
        simp only [hlen, h.ready.good, List.getElem?_eq_getElem hi, hread]
        rfl
    · have hnone : xs[i]? = none := List.getElem?_eq_none (by omega)
      have hlen : s.mOffsets.length ≤ i := by
        rw [h.length_eq]
        omega
      refine ⟨s, h, rfl, ?_⟩
      simp only [hlen, hnone, if_true]
      rfl

/-! ## Writing -/

/-- An operation that was to take the files from `xs` to `ys`: it has, or the
power went before the number was written. -/
structure Left (A : ItemArchive T) (d d' : Drive FileName) (xs ys : List T) : Prop where
  stored : Stored A d' ys ∨ (d'.power = some 0 ∧ Stored A d' xs)
  mains : d.power = none → d'.power = none
  dead : d.power = some 0 → d' = d

/-- The last write of each operation puts the new number in place. -/
theorem write_count {d : Drive FileName} {xs : List T} (ys : List T) (hr : d.Ready) (hd : Stored A d xs)
    (hitems : d.power ≠ some 0 → ∃ old, d.file .items = some (itemBytes A ys ++ old))
    (hsizes : d.power ≠ some 0 → ∃ old, d.file .indexes =
      some (bytesOfPod 8 xs.length ++ (sizeBytes A ys ++ old)))
    (hfits : Fits A ys) :
    (d.write .indexes 0 (bytesOfPod 8 ys.length)).Ready ∧
      Left A d (d.write .indexes 0 (bytesOfPod 8 ys.length)) xs ys := by
  have hfit : 0 + (bytesOfPod 8 ys.length).length ≤ maxSize := by
    rw [bytesOfPod_length]
    decide
  obtain ⟨hready, ⟨hp, hsame⟩ | ⟨hp, -, hpow⟩⟩ := hr.write (f := FileName.indexes) hfit
  · refine ⟨hready, ⟨Or.inr ?_, ?_, fun _ => hsame⟩⟩
    · rw [hsame]
      exact ⟨hp, hd⟩
    · rw [hsame]
      exact id
  · obtain ⟨old, hold⟩ := hitems hp
    obtain ⟨old', hold'⟩ := hsizes hp
    have hlen : (bytesOfPod 8 ys.length).length = (bytesOfPod 8 xs.length).length := by
      rw [bytesOfPod_length, bytesOfPod_length]
    have hfile := hr.write_front hold' hlen (by omega) hp
    refine ⟨hready, ⟨Or.inl ⟨⟨old, ?_⟩, ⟨old', ?_⟩, hfits⟩, ?_, fun h0 => absurd h0 hp⟩⟩
    · rw [hfile, Function.update_of_ne (by decide), hold]
    · rw [hfile, Function.update_self]
    · intro hn
      rw [hpow, hn]
      rfl

/-- Lowering the number takes items off the end. -/
theorem write_lower_count {d : Drive FileName} {ys zs : List T} (hd : Stored A d (ys ++ zs))
    (hr : d.Ready) :
    (d.write .indexes 0 (bytesOfPod 8 ys.length)).Ready ∧
      Left A d (d.write .indexes 0 (bytesOfPod 8 ys.length)) (ys ++ zs) ys := by
  refine write_count ys hr hd ?_ ?_ hd.fits.of_append
  · intro _
    obtain ⟨old, hold⟩ := hd.items
    rw [itemBytes, List.flatMap_append, List.append_assoc] at hold
    exact ⟨_, hold⟩
  · intro _
    obtain ⟨old, hold⟩ := hd.indexes
    rw [sizeBytes, List.flatMap_append, List.append_assoc] at hold
    exact ⟨_, hold⟩

/-- `clear` shows no item, and leaves the files empty. -/
theorem clear_spec {s : SwappedVector T} {xs : List T} (h : Shows A s xs)
    (hd : Stored A s.drive xs) :
    ∃ s', clear s = .ok () s' ∧ Shows A s' [] ∧ Left A s.drive s'.drive xs [] := by
  obtain ⟨hready, hleft⟩ := write_lower_count (show Stored A s.drive ([] ++ xs) from hd) h.ready
  rw [List.length_nil] at hready hleft
  rw [List.nil_append] at hleft
  refine ⟨{ s with
      drive := s.drive.write .indexes 0 (bytesOfPod 8 0)
      mOffsets := []
      mItemsFileSize := 0
      pool := Lru.empty }, ?_, ⟨rfl, rfl, hready, h.poolSize, Lru.wf_empty, ?_⟩, hleft⟩
  · unfold clear
    simp only [bind_apply, get_apply, set_apply, h.ready.good, hready.good, Bool.true_eq_false,
      if_false]
  · intro k v hk
    rw [Lru.find?_empty] at hk
    cases hk

/-- `pop_back` shows one item less. -/
theorem popBack_spec {s : SwappedVector T} {xs : List T} {x : T} (h : Shows A s (xs ++ [x]))
    (hd : Stored A s.drive (xs ++ [x])) :
    ∃ s', popBack s = .ok () s' ∧ Shows A s' xs ∧ Left A s.drive s'.drive (xs ++ [x]) xs := by
  obtain ⟨hready, hleft⟩ := write_lower_count hd h.ready
  have hlt := hd.fits.length_lt
  rw [List.length_append, List.length_singleton] at hlt
  have hcount : (s.mOffsets.length + 2 ^ 64 - 1) % 2 ^ 64 = xs.length := by
    rw [h.length_eq, List.length_append, List.length_singleton]
    omega
  have hoff : s.mOffsets = offsetsOf A xs ++ [(itemBytes A xs).length] := by
    rw [h.offsets, offsetsOf_append]
  have hlast : s.mOffsets.getLast? = some (itemBytes A xs).length := by
    rw [hoff, List.getLast?_concat]
  have hdrop : s.mOffsets.dropLast = offsetsOf A xs := by
    rw [hoff, List.dropLast_concat]
  refine ⟨{ s with
      drive := s.drive.write .indexes 0 (bytesOfPod 8 xs.length)
      mItemsFileSize := (itemBytes A xs).length
      mOffsets := s.mOffsets.dropLast
      pool := s.pool.erase s.mOffsets.dropLast.length }, ?_,
    ⟨hdrop, rfl, hready, h.poolSize, h.pool.erase _, ?_⟩, hleft⟩
  · unfold popBack
    simp only [bind_apply, get_apply, set_apply, h.ready.good, hcount, hready.good, hlast,
      Bool.true_eq_false, if_false]
  · intro k v hk
    rw [hdrop, offsetsOf_length] at hk
    by_cases hki : k = xs.length
    · rw [hki, Lru.find?_erase_self] at hk
      cases hk
    · rw [Lru.find?_erase_ne hki] at hk
      have hfound := h.found k v hk
      have hbound := (List.getElem?_eq_some_iff.1 hfound).1
      rw [List.length_append, List.length_singleton] at hbound
      rw [List.getElem?_append_left (by omega)] at hfound
      exact hfound

/-- The bytes and the size of a new item, written behind those that are there. -/
theorem write_item {d : Drive FileName} {xs : List T} {x : T} (hr : d.Ready) (hd : Stored A d xs)
    (hfits : Fits A (xs ++ [x])) :
    let d₁ := d.writeChunks .items (itemBytes A xs).length (A.chunks x)
    let d₂ := d₁.write .indexes (8 + 4 * xs.length) (bytesOfPod 4 (A.bytes x).length)
    d₁.Ready ∧ d₂.Ready ∧ Stored A d₂ xs ∧ (d.power = none → d₂.power = none) ∧
      (d.power = some 0 → d₂ = d) ∧
      (d₂.power ≠ some 0 → (∃ old, d₂.file .items = some (itemBytes A (xs ++ [x]) ++ old)) ∧
        ∃ old, d₂.file .indexes =
          some (bytesOfPod 8 xs.length ++ (sizeBytes A (xs ++ [x]) ++ old))) := by
  intro d₁ d₂
  obtain ⟨olds, holds⟩ := hd.items
  obtain ⟨oldx, holdx⟩ := hd.indexes
  have hitems := hfits.items
  rw [itemBytes_append, List.length_append] at hitems
  have hindexes := hfits.indexes
  rw [List.length_append, List.length_singleton] at hindexes
  have h₁ : d.Behind d₁ .items (itemBytes A xs) (A.bytes x) :=
    hr.writeChunks_behind holds (A.chunks x) hitems
  -- the index file is still the one of `d`
  have hfront : (bytesOfPod 8 xs.length ++ sizeBytes A xs).length = 8 + 4 * xs.length := by
    rw [List.length_append, bytesOfPod_length, sizeBytes_length]
  have hidx : d₁.file .indexes = some (bytesOfPod 8 xs.length ++ sizeBytes A xs ++ oldx) := by
    rw [h₁.others _ (by decide), holdx, List.append_assoc]
  have hslot : (bytesOfPod 8 xs.length ++ sizeBytes A xs).length +
      (bytesOfPod 4 (A.bytes x).length).length ≤ maxSize := by
    rw [hfront, bytesOfPod_length]
    omega
  have h₂ := h₁.ready.write_behind hidx hslot
  rw [hfront] at h₂
  change d₁.Behind d₂ _ _ _ at h₂
  have hitems₂ : d₂.file .items = d₁.file .items := h₂.others _ (by decide)
  refine ⟨h₁.ready, h₂.ready, ⟨?_, ?_, hd.fits⟩, fun hn => h₂.mains (h₁.mains hn), ?_, ?_⟩
  · rw [hitems₂]
    exact h₁.kept
  · obtain ⟨old, hold⟩ := h₂.kept
    exact ⟨old, by rw [hold, List.append_assoc]⟩
  · intro h0
    have hd₁ := h₁.dead h0
    rw [← hd₁] at h0
    rw [h₂.dead h0, hd₁]
  · intro hp
    have hp₁ : d₁.power ≠ some 0 := by
      intro h0
      rw [h₂.dead h0] at hp
      exact hp h0
    refine ⟨?_, ?_⟩
    · obtain ⟨old, hold⟩ := h₁.done hp₁
      exact ⟨old, by rw [hitems₂, hold, itemBytes_append, List.append_assoc]⟩
    · obtain ⟨old, hold⟩ := h₂.done hp
      exact ⟨old, by rw [hold, sizeBytes_append, List.append_assoc, List.append_assoc]⟩

/-- `push_back` shows one item more. -/
theorem pushBack_spec {s : SwappedVector T} {xs : List T} {x : T} (h : Shows A s xs)
    (hd : Stored A s.drive xs) (hfits : Fits A (xs ++ [x])) :
    ∃ s', pushBack A x s = .ok () s' ∧ Shows A s' (xs ++ [x]) ∧
      Left A s.drive s'.drive xs (xs ++ [x]) := by
  obtain ⟨hr₁, hr₂, hd₂, hm₂, hdead₂, hnew⟩ := write_item h.ready hd hfits
  obtain ⟨hr₃, hleft⟩ := write_count (xs ++ [x]) hr₂ hd₂ (fun hp => (hnew hp).1)
    (fun hp => (hnew hp).2) hfits
  have hslot : bytesOfPod 4 ((A.bytes x).length % 2 ^ 32) = bytesOfPod 4 (A.bytes x).length :=
    bytesOfPod_mod 4 _
  have hlt := hfits.length_lt
  have hcount : (xs.length + 1) % 2 ^ 64 = (xs ++ [x]).length := by
    rw [List.length_append, List.length_singleton] at hlt ⊢
    omega
  have hoff : offsetsOf A xs ++ [(itemBytes A xs).length] = offsetsOf A (xs ++ [x]) :=
    (offsetsOf_append xs x).symm
  have hsize : (itemBytes A xs).length + (A.bytes x).length = (itemBytes A (xs ++ [x])).length := by
    rw [itemBytes_append, List.length_append]
  have hlast : (xs ++ [x]).length - 1 = xs.length := by
    rw [List.length_append, List.length_singleton, Nat.add_sub_cancel]
  refine ⟨{ s with
      drive := ((s.drive.writeChunks .items (itemBytes A xs).length (A.chunks x)).write .indexes
        (8 + 4 * xs.length) (bytesOfPod 4 (A.bytes x).length)).write .indexes 0
          (bytesOfPod 8 (xs ++ [x]).length)
      mOffsets := offsetsOf A (xs ++ [x])
      mItemsFileSize := (itemBytes A xs).length + (A.bytes x).length
      pool := s.pool.put s.mPoolSize xs.length x }, ?_,
    ⟨rfl, ?_, hr₃, h.poolSize, h.pool.put h.poolSize _ _, ?_⟩,
    ⟨hleft.stored, fun hn => hleft.mains (hm₂ hn), ?_⟩⟩
  · unfold pushBack
    simp only [bind_apply, get_apply, set_apply, h.ready.good, h.itemsFileSize, hr₁.good,
      h.offsets, offsetsOf_length, hoff, hlast, Nat.add_sub_cancel_left, hslot, hr₂.good, hcount,
      hr₃.good, Bool.true_eq_false, if_false]
  · exact hsize
  · intro k v hk
    by_cases hki : k = xs.length
    · rw [hki, Lru.find?_put_self] at hk
      rw [hki, ← hk, List.getElem?_concat_length]
    · have hfound := h.found k v (Lru.find?_of_put hki hk)
      rw [List.getElem?_append_left (List.getElem?_eq_some_iff.1 hfound).1]
      exact hfound
  · intro h0
    have hsame := hdead₂ h0
    rw [← hsame] at h0
    rw [hleft.dead h0, hsame]

/-! ## Opening -/

/-- A number is read back from the front. -/
theorem readPod_bytesOfPod {n v : Nat} (h : v < 256 ^ n) (rest : Blob) :
    readPod n (bytesOfPod n v ++ rest) = some (v, rest) := by
  have hlen := bytesOfPod_length n v
  unfold readPod
  rw [if_neg, List.take_left' hlen, List.drop_left' hlen, podOfBytes_bytesOfPod h]
  rw [List.length_append, hlen]
  omega

/-- The loop of `openFiles` after the sizes of `xs`, with those of `ys` to come. -/
theorem readOffsets_sizes (xs ys : List T) (hfits : Fits A (xs ++ ys)) (hsmall : Small A ys)
    (old : Blob) :
    readOffsets ys.length (sizeBytes A ys ++ old) (offsetsOf A xs) (itemBytes A xs).length =
      some (offsetsOf A (xs ++ ys), (itemBytes A (xs ++ ys)).length) := by
  induction ys generalizing xs with
  | nil => rw [List.append_nil]; rfl
  | cons y ys ih =>
    have hbytes : sizeBytes A (y :: ys) ++ old =
        bytesOfPod 4 (A.bytes y).length ++ (sizeBytes A ys ++ old) := by
      rw [sizeBytes, List.flatMap_cons, List.append_assoc]
      rfl
    have happ : xs ++ y :: ys = xs ++ [y] ++ ys := by
      rw [List.append_assoc, List.singleton_append]
    rw [happ] at hfits ⊢
    have hitems := hfits.of_append.items
    unfold maxSize at hitems
    have hsum : ((itemBytes A xs).length + (A.bytes y).length) % 2 ^ 64 =
        (itemBytes A (xs ++ [y])).length := by
      rw [itemBytes_append, List.length_append] at hitems ⊢
      omega
    have hy := hsmall y List.mem_cons_self
    rw [List.length_cons, hbytes, readOffsets, readPod_bytesOfPod (by omega)]
    simp only
    rw [hsum, ← offsetsOf_append]
    exact ih (xs ++ [y]) hfits fun z hz => hsmall z (List.mem_cons_of_mem _ hz)

/-- Both streams of a restarted drive open when both files are there. -/
theorem openInOut_restart {d : Drive FileName} (hitems : (d.file .items).isSome = true)
    (hindexes : (d.file .indexes).isSome = true) :
    (d.restart.openInOut .items).openInOut .indexes = d.running := by
  rw [d.restart.openInOut_of_file (f := .items) rfl hitems,
    (d.restart.setStream .items ⟨true, false⟩).openInOut_of_file (f := .indexes) rfl hindexes]
  unfold Drive.setStream Drive.running
  congr 1
  funext f
  cases f <;> rfl

/-- Opening files whose index gives `count` offsets. -/
theorem openFiles_eq {d : Drive FileName} {count : Nat} {rest : Blob} {offsets : List Nat}
    {itemsFileSize poolSize : Nat} (hitems : (d.file .items).isSome = true)
    (hindexes : d.file .indexes = some (bytesOfPod 8 count ++ rest)) (hcount : count < 2 ^ 63)
    (hoffsets : readOffsets count rest [] 0 = some (offsets, itemsFileSize)) (hp : 0 < poolSize) :
    openFiles poolSize (construct d : SwappedVector T) =
      (true, opened poolSize offsets itemsFileSize d.running) := by
  have hdrive : ((construct d : SwappedVector T).drive.openInOut .items).openInOut .indexes =
      d.running :=
    openInOut_restart hitems (by rw [hindexes]; rfl)
  have hcontents : d.running.contents .indexes = bytesOfPod 8 count ++ rest := by
    show (d.file .indexes).getD [] = _
    rw [hindexes, Option.getD_some]
  unfold openFiles
  rw [if_neg (by omega)]
  simp only
  rw [hdrive, if_pos ⟨rfl, rfl⟩]
  unfold openExisting
  simp only
  rw [hcontents, readPod_bytesOfPod (by omega)]
  simp only
  rw [hoffsets]

/-- Opening files that hold `xs` shows `xs`. -/
theorem openFiles_spec {d : Drive FileName} {xs : List T} (hd : Stored A d xs)
    (hsmall : Small A xs) {poolSize : Nat} (hp : 0 < poolSize) :
    ∃ s, openFiles poolSize (construct d) = (true, s) ∧ Shows A s xs ∧ Stored A s.drive xs ∧
      s.drive.power = none ∧ s.mPoolSize = poolSize := by
  obtain ⟨olds, holds⟩ := hd.items
  obtain ⟨oldx, holdx⟩ := hd.indexes
  have hoffsets := readOffsets_sizes [] xs hd.fits hsmall oldx
  rw [List.nil_append] at hoffsets
  refine ⟨_, openFiles_eq (by rw [holds]; rfl) holdx hd.fits.length_lt hoffsets hp,
    ⟨rfl, rfl, fun _ => rfl, hp, Lru.wf_empty, ?_⟩, ⟨hd.items, hd.indexes, hd.fits⟩, rfl, rfl⟩
  intro k v hk
  rw [show (opened poolSize _ _ _ : SwappedVector T).pool = Lru.empty from rfl,
    Lru.find?_empty] at hk
  cases hk

/-- `close` leaves the streams open, so an object cannot be opened twice. -/
theorem openFiles_ready {s : SwappedVector T} (h : s.drive.Ready) (poolSize : Nat) :
    (openFiles poolSize s).1 = false := by
  have hne : FileName.indexes ≠ FileName.items := by decide
  have hopen : (s.drive.stream .indexes).isOpen = true := by rw [h]
  have hfirst : ((s.drive.openInOut .items).openInOut .indexes).stream .indexes = ⟨true, true⟩ := by
    rw [Drive.stream_openInOut_of_open]
    rw [Drive.stream_openInOut_ne hne]
    exact hopen
  -- in the other branch the items stream is closed and opened, the index stream is not
  have hagain (d : Drive FileName) (hd : d.stream .indexes = ⟨true, true⟩) :
      ((((d.openOut .items).close .items).openInOut .items).openOut .indexes).stream .indexes =
        ⟨true, true⟩ := by
    rw [Drive.stream_openOut_of_open]
    rw [Drive.stream_openInOut_ne hne, Drive.stream_close_ne hne, Drive.stream_openOut_ne hne, hd]
  unfold openFiles
  by_cases hp : poolSize = 0
  · rw [if_pos hp]
  · rw [if_neg hp]
    simp only
    rw [if_neg (by rw [Drive.good, Drive.good, hfirst]; exact fun hg => Bool.false_ne_true hg.2)]
    unfold openNew
    simp only
    rw [Drive.write_of_fail (by rw [hagain _ hfirst]), if_neg]
    rw [Drive.good, hagain _ hfirst]
    exact Bool.false_ne_true

/-- A drive with nothing on it. -/
def blank : Drive FileName :=
  { file := fun _ => none, power := none, stream := fun _ => ⟨false, false⟩ }

/-- Opening a blank drive makes the two files, with nothing in them. -/
theorem openFiles_blank {poolSize : Nat} (hp : 0 < poolSize) :
    ∃ s : SwappedVector T, openFiles poolSize (construct blank) = (true, s) ∧ Shows A s [] ∧
      Stored A s.drive [] ∧ s.drive.power = none ∧ s.mPoolSize = poolSize := by
  refine ⟨(openNew poolSize { construct blank with
      drive := (blank.restart.openInOut .items).openInOut .indexes }).2, ?_,
    ⟨rfl, rfl, ?_, hp, Lru.wf_empty, ?_⟩, ⟨⟨[], rfl⟩, ⟨[], rfl⟩, ?_⟩, rfl, rfl⟩
  · unfold openFiles
    rw [if_neg (by omega)]
    rfl
  · intro f
    cases f <;> rfl
  · intro k v hk
    rw [show (openNew poolSize _ : Bool × SwappedVector T).2.pool = Lru.empty from rfl,
      Lru.find?_empty] at hk
    cases hk
  · exact ⟨Nat.zero_le _, show 8 ≤ maxSize by decide⟩

/-! ## Runs -/

/-- The same calls on a plain vector. -/
def plainStep (xs : List T) : SwappedOp T → SwappedOutcome T × List T
  | .reopen _ => (.opened true, xs)
  | .pushBack item => (.done, xs ++ [item])
  | .popBack => (.done, xs.dropLast)
  | .clear => (.done, [])
  | .subscript index => (plainAt xs index.toNat, xs)
  | .front => (plainAt xs 0, xs)
  | .back => (xs.getLast?.elim (.threw .readIndexOverflow) .value, xs)

/-- The operations on a plain list, with what they return. -/
def plainRun (xs : List T) : List (SwappedOp T) → List (SwappedOutcome T) × List T
  | [] => ([], xs)
  | op :: ops =>
    let (out, xs') := plainStep xs op
    let (outs, xs'') := plainRun xs' ops
    (out :: outs, xs'')

/-- A call may be made on a vector that holds `xs`: nothing is popped off an
empty one, a pool has room for an item, a new item is below 4 GiB and the files
can take it. -/
def Legal (A : ItemArchive T) (xs : List T) : SwappedOp T → Prop
  | .reopen poolSize => 0 < poolSize
  | .pushBack item => (A.bytes item).length < 2 ^ 32 ∧ Fits A (xs ++ [item])
  | .popBack => xs ≠ []
  | _ => True

/-- Every operation may be called where it is. -/
def LegalRun (A : ItemArchive T) (xs : List T) : List (SwappedOp T) → Prop
  | [] => True
  | op :: ops => Legal A xs op ∧ LegalRun A (plainStep xs op).2 ops

/-- What can be addressed stays so under operations that are legal. -/
theorem Small.plainStep {xs : List T} (h : Small A xs) {op : SwappedOp T} (hlegal : Legal A xs op) :
    Small A (plainStep xs op).2 := by
  cases op with
  | pushBack item =>
    intro x hx
    rcases List.mem_append.1 hx with hx | hx
    · exact h x hx
    · rw [List.mem_singleton.1 hx]
      exact hlegal.1
  | popBack =>
    intro x hx
    exact h x (List.dropLast_sublist xs |>.subset hx)
  | clear => exact nofun
  | _ => exact h

/-- The object shows what the files hold, and the power is on. -/
structure Sound (A : ItemArchive T) (s : SwappedVector T) (xs : List T) : Prop where
  shows : Shows A s xs
  stored : Stored A s.drive xs
  small : Small A xs
  mains : s.drive.power = none

/-- Items in memory and files behind an operation, put together. -/
theorem Sound.of_left {s s' : SwappedVector T} {xs ys : List T} (h : Sound A s xs)
    (hs : Shows A s' ys) (hsmall : Small A ys) (hl : Left A s.drive s'.drive xs ys) :
    Sound A s' ys := by
  have hm := hl.mains h.mains
  rcases hl.stored with hd | ⟨h0, _⟩
  · exact ⟨hs, hd, hsmall, hm⟩
  · rw [hm] at h0
    cases h0

/-- `[]` returns the item at the index, from the cache or from the file. -/
theorem Sound.subscript {s : SwappedVector T} {xs : List T} (h : Sound A s xs) (i : Nat) :
    ∃ s', valueOf (subscript A i s) = (plainAt xs i, s') ∧ Sound A s' xs := by
  obtain ⟨s', hs', hdrive, heq⟩ := subscript_spec h.shows h.stored i
  exact ⟨s', heq, hs', hdrive ▸ h.stored, h.small, hdrive ▸ h.mains⟩

/-- `back` returns the last item, or throws. -/
theorem Sound.back {s : SwappedVector T} {xs : List T} (h : Sound A s xs) :
    ∃ s', valueOf (back A s) = (xs.getLast?.elim (.threw .readIndexOverflow) .value, s') ∧
      Sound A s' xs := by
  have hlt := h.stored.fits.length_lt
  have hlast : plainAt xs ((xs.length + 2 ^ 64 - 1) % 2 ^ 64) =
      xs.getLast?.elim (.threw .readIndexOverflow) .value := by
    by_cases hxs : xs = []
    · rw [hxs]
      rfl
    · have hpos := List.length_pos_of_ne_nil hxs
      have hidx : (xs.length + 2 ^ 64 - 1) % 2 ^ 64 = xs.length - 1 := by omega
      rw [hidx, List.getLast?_eq_getElem?, plainAt]
      cases xs[xs.length - 1]? <;> rfl
  obtain ⟨s', heq, hs'⟩ := h.subscript ((xs.length + 2 ^ 64 - 1) % 2 ^ 64)
  refine ⟨s', ?_, hs'⟩
  rw [← hlast, ← heq, SwappedVector.back, bind_apply, get_apply]
  simp only
  rw [h.shows.length_eq]

/-- One call, on the files and on a plain vector. -/
theorem Sound.step {s : SwappedVector T} {xs : List T} (h : Sound A s xs) {op : SwappedOp T}
    (hlegal : Legal A xs op) :
    ∃ s', step A s op = ((plainStep xs op).1, s') ∧ Sound A s' (plainStep xs op).2 := by
  cases op with
  | reopen poolSize =>
    obtain ⟨s', heq, hs', hd', hm', -⟩ := openFiles_spec h.stored h.small hlegal
    refine ⟨s', ?_, hs', hd', h.small, hm'⟩
    show Prod.map _ _ (openFiles poolSize (construct s.drive)) = _
    rw [heq]
    rfl
  | pushBack item =>
    obtain ⟨s', heq, hs', hl'⟩ := pushBack_spec h.shows h.stored hlegal.2
    exact ⟨s', congrArg doneOf heq, h.of_left hs' (h.small.plainStep hlegal) hl'⟩
  | popBack =>
    obtain ⟨ys, y, hys⟩ := (List.eq_nil_or_concat xs).resolve_left hlegal
    rw [List.concat_eq_append] at hys
    subst hys
    obtain ⟨s', heq, hs', hl'⟩ := popBack_spec h.shows h.stored
    refine ⟨s', congrArg doneOf heq, ?_⟩
    show Sound A s' (ys ++ [y]).dropLast
    rw [List.dropLast_concat]
    exact h.of_left hs' (fun x hx => h.small x (List.mem_append_left _ hx)) hl'
  | clear =>
    obtain ⟨s', heq, hs', hl'⟩ := clear_spec h.shows h.stored
    exact ⟨s', congrArg doneOf heq, h.of_left hs' nofun hl'⟩
  | subscript index => exact h.subscript index.toNat
  | front => exact h.subscript 0
  | back => exact h.back

/-- **A run on the files is the run on a plain list**, by induction over the operations. -/
theorem Sound.run {s : SwappedVector T} {xs : List T} (h : Sound A s xs) {ops : List (SwappedOp T)}
    (hlegal : LegalRun A xs ops) :
    ∃ s', run A s ops = ((plainRun xs ops).1, s') ∧ Sound A s' (plainRun xs ops).2 := by
  induction ops generalizing s xs with
  | nil => exact ⟨s, rfl, h⟩
  | cons op ops ih =>
    obtain ⟨s₁, hstep, h₁⟩ := h.step hlegal.1
    obtain ⟨s₂, hrun, h₂⟩ := ih h₁ hlegal.2
    refine ⟨s₂, ?_, h₂⟩
    unfold SwappedVector.run
    rw [hstep]
    simp only
    rw [hrun]
    rfl

/-- What a whole run leaves: the plain vector's size, and a pool whose list and
map have the same keys, no more than there is room for and all of them in range. -/
structure Settled (s : SwappedVector T) (xs : List T) : Prop where
  size_eq : s.size = xs.length
  keys : (s.pool.cache.map Prod.snd).Perm s.pool.items.keys
  room : s.pool.items.size ≤ s.mPoolSize
  below : ∀ k ∈ s.pool.items.keys, k < s.size

/-- The offsets of a sound vector are within its file. -/
theorem Sound.settled {s : SwappedVector T} {xs : List T} (h : Sound A s xs) : Settled s xs where
  size_eq := h.shows.length_eq
  keys := h.shows.pool.keys_perm
  room := by
    rw [h.shows.pool.size_eq]
    exact h.shows.pool.room
  below k hk := by
    obtain ⟨v, hv⟩ := h.shows.pool.mem_keys.1 (h.shows.pool.keys_perm.symm.subset hk)
    rw [size, h.shows.length_eq]
    exact (List.getElem?_eq_some_iff.1 (h.shows.found k v hv)).1

/-- A run that begins with the first opening of a blank drive. -/
theorem run_blank {poolSize : Nat} (hp : 0 < poolSize) {ops : List (SwappedOp T)}
    (hlegal : LegalRun A [] ops) :
    ∃ s, run A (construct blank) (.reopen poolSize :: ops) =
        (.opened true :: (plainRun [] ops).1, s) ∧ Sound A s (plainRun [] ops).2 := by
  obtain ⟨s₁, hopen, hs, hd, hm, -⟩ := openFiles_blank (A := A) hp
  have hsound : Sound A s₁ [] := ⟨hs, hd, nofun, hm⟩
  obtain ⟨s₂, hrun, h₂⟩ := hsound.run hlegal
  have hfirst : step A (construct blank) (.reopen poolSize) = (.opened true, s₁) := by
    show Prod.map _ _ (openFiles poolSize (construct (construct blank).drive)) = _
    rw [show (construct (construct blank : SwappedVector T).drive : SwappedVector T) =
      construct blank from rfl, hopen]
    rfl
  refine ⟨s₂, ?_, h₂⟩
  rw [run, hfirst]
  simp only
  rw [hrun]

/-- Every run of calls, from the first opening of a blank drive on, gives what
the same calls give on a plain vector. -/
theorem run_eq_plainRun (A : ItemArchive T) {poolSize : Nat} (hp : 0 < poolSize)
    (ops : List (SwappedOp T)) (hlegal : LegalRun A [] ops) :
    (run A (construct blank) (.reopen poolSize :: ops)).1 =
        (plainRun [] (.reopen poolSize :: ops)).1 ∧
      Settled (run A (construct blank) (.reopen poolSize :: ops)).2
        (plainRun [] (.reopen poolSize :: ops)).2 := by
  obtain ⟨s, hrun, hsound⟩ := run_blank hp hlegal
  rw [hrun]
  exact ⟨rfl, hsound.settled⟩

/-- A run over single bytes. -/
theorem run_eq_plainRun_bytes :
    let A := ItemArchive.ofCodec Codec.byte
    (run A (construct blank) [.reopen 1, .pushBack ⟨7, rfl⟩, .pushBack ⟨8, rfl⟩, .subscript 0,
        .popBack, .reopen 2, .back, .subscript 1]).1 =
      [.opened true, .done, .done, .value ⟨7, rfl⟩, .done, .opened true, .value ⟨7, rfl⟩,
        .threw .readIndexOverflow] := by
  intro A
  have hone : Fits A [⟨7, rfl⟩] := ⟨by decide, by decide⟩
  have htwo : Fits A [⟨7, rfl⟩, ⟨8, rfl⟩] := ⟨by decide, by decide⟩
  exact (run_eq_plainRun A Nat.one_pos
    [.pushBack ⟨7, rfl⟩, .pushBack ⟨8, rfl⟩, .subscript 0, .popBack, .reopen 2, .back, .subscript 1]
    ⟨⟨by decide, hone⟩, ⟨by decide, htwo⟩, trivial, List.cons_ne_nil _ _, Nat.two_pos, trivial, trivial,
      trivial⟩).1

end SwappedVector

end DarknetSpace
