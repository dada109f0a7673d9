import DarknetSpace.Store.PlainVector

/-!
# The file-backed vector survives a power cut

An operation writes the bytes of an item, its size and the number of items, in
this order, and the first two behind everything the number covers. A cut
before the last write therefore leaves what was there, and the last write puts
all of the operation in force at once.

Sizes are kept in 32 bits. The size of an item of 4 GiB or more is truncated,
and every later item is then looked for in the wrong place after a restart.

A run is a history of pushes and pops with a cut after any number of write calls. What
is found at the next opening is read off `Stored` of `PlainVector`: the number of items
that was written last, and the items behind it that were there before.
-/

namespace DarknetSpace

open Files StateExn

namespace SwappedVector

variable {T : Type} {A : ItemArchive T}

/-- The calls that write to the files. -/
inductive Writes : SwappedOp T → Prop
  | pushBack (item : T) : Writes (.pushBack item)
  | popBack : Writes .popBack
  | clear : Writes .clear

/-- The object on a drive with power for `k` write calls only. -/
def withPower (s : SwappedVector T) (k : Nat) : SwappedVector T :=
  { s with drive := { s.drive with power := some k } }

/-- The drive after `op` with power for `k` write calls only. -/
def cutAt (A : ItemArchive T) (s : SwappedVector T) (op : SwappedOp T) (k : Nat) : Drive FileName :=
  (step A (s.withPower k) op).2.drive

theorem Shows.withPower {s : SwappedVector T} {xs : List T} (h : Shows A s xs) (k : Nat) :
    Shows A (s.withPower k) xs :=
  ⟨h.offsets, h.itemsFileSize, h.ready, h.poolSize, h.pool, h.found⟩

theorem Stored.withPower {s : SwappedVector T} {xs : List T} (h : Stored A s.drive xs) (k : Nat) :
    Stored A (s.withPower k).drive xs :=
  ⟨h.items, h.indexes, h.fits⟩

/-- With no power left nothing is popped. -/
theorem cutAt_popBack_zero {s : SwappedVector T} {xs : List T} {x : T} (h : Shows A s (xs ++ [x]))
    (hd : Stored A s.drive (xs ++ [x])) : Stored A (cutAt A s .popBack 0) (xs ++ [x]) := by
  obtain ⟨s', heq, -, hl⟩ := popBack_spec (h.withPower 0) (hd.withPower 0)
  have hcut : cutAt A s .popBack 0 = s'.drive := congrArg (fun r => (doneOf r).2.drive) heq
  rw [hcut, hl.dead rfl]
  exact hd.withPower 0

/-- The vector has the size of `xs` and reads as `xs` at every index. -/
def Reads (A : ItemArchive T) (s : SwappedVector T) (xs : List T) : Prop :=
  s.size = xs.length ∧ ∀ index : UInt64, (step A s (.subscript index)).1 = plainAt xs index.toNat

theorem Sound.reads {s : SwappedVector T} {xs : List T} (h : Sound A s xs) : Reads A s xs := by
  refine ⟨h.shows.length_eq, ?_⟩
  intro index
  obtain ⟨s', heq, -⟩ := h.subscript index.toNat
  exact congrArg Prod.fst heq

/-- A cut leaves the files with what they held before the call or after it. -/
theorem Sound.cutAt {s : SwappedVector T} {xs : List T} (h : Sound A s xs) {op : SwappedOp T}
    (hw : Writes op) (hlegal : Legal A xs op) (k : Nat) :
    Stored A (cutAt A s op k) xs ∨ Stored A (cutAt A s op k) (plainStep xs op).2 := by
  have hs := h.shows.withPower k
  have hd := h.stored.withPower k
  have hleft (s' : SwappedVector T) (ys : List T)
      (hl : Left A (s.withPower k).drive s'.drive xs ys) :
      Stored A s'.drive xs ∨ Stored A s'.drive ys := by
    rcases hl.stored with hys | ⟨-, hxs⟩
    · exact Or.inr hys
    · exact Or.inl hxs
  cases hw with
  | pushBack item =>
    obtain ⟨s', heq, -, hl⟩ := pushBack_spec hs hd hlegal.2
    have hcut : SwappedVector.cutAt A s (.pushBack item) k = s'.drive :=
      congrArg (fun r => (doneOf r).2.drive) heq
    rw [hcut]
    exact hleft s' _ hl
  | popBack =>
    obtain ⟨ys, y, hys⟩ := (List.eq_nil_or_concat xs).resolve_left hlegal
    rw [List.concat_eq_append] at hys
    subst hys
    obtain ⟨s', heq, -, hl⟩ := popBack_spec hs hd
    have hcut : SwappedVector.cutAt A s .popBack k = s'.drive :=
      congrArg (fun r => (doneOf r).2.drive) heq
    have hdrop : (plainStep (ys ++ [y]) .popBack).2 = ys := List.dropLast_concat
    rw [hcut, hdrop]
    exact hleft s' _ hl
  | clear =>
    obtain ⟨s', heq, -, hl⟩ := clear_spec hs hd
    have hcut : SwappedVector.cutAt A s .clear k = s'.drive :=
      congrArg (fun r => (doneOf r).2.drive) heq
    rw [hcut]
    exact hleft s' _ hl

/-- The object after a run on a blank drive. -/
def history (A : ItemArchive T) (poolSize : Nat) (ops : List (SwappedOp T)) : SwappedVector T :=
  (run A (construct blank) (.reopen poolSize :: ops)).2

/-- The plain vector after the same run. -/
def plainHistory (ops : List (SwappedOp T)) : List T := (plainRun [] ops).2

theorem sound_history {poolSize : Nat} (hp : 0 < poolSize) {ops : List (SwappedOp T)}
    (hlegal : LegalRun A [] ops) : Sound A (history A poolSize ops) (plainHistory ops) := by
  obtain ⟨s, hrun, hsound⟩ := run_blank hp hlegal
  rw [history, hrun]
  exact hsound

/-- Cut off any call that writes, after any run and between any two of its write
calls: the files open again, with what was there before the call or after it. -/
theorem reopens_after_cut (A : ItemArchive T) {poolSize : Nat} (hp : 0 < poolSize)
    (ops : List (SwappedOp T)) (hlegal : LegalRun A [] ops) (op : SwappedOp T) (hw : Writes op)
    (hop : Legal A (plainHistory ops) op) (k : Nat) {poolSize' : Nat} (hp' : 0 < poolSize') :
    ∃ s, openFiles poolSize' (construct (cutAt A (history A poolSize ops) op k)) = (true, s) ∧
      (Reads A s (plainHistory ops) ∨ Reads A s (plainStep (plainHistory ops) op).2) := by
  have h := sound_history hp hlegal
  have hopens (xs : List T) (hxs : Small A xs)
      (hd : Stored A (cutAt A (history A poolSize ops) op k) xs) :
      ∃ s, openFiles poolSize' (construct (cutAt A (history A poolSize ops) op k)) = (true, s) ∧
        Reads A s xs := by
    obtain ⟨s, hopen, hs, hd', hm, -⟩ := openFiles_spec hd hxs hp'
    exact ⟨s, hopen, Sound.reads ⟨hs, hd', hxs, hm⟩⟩
  rcases h.cutAt hw hop k with hd | hd
  · obtain ⟨s, hopen, hreads⟩ := hopens _ h.small hd
    exact ⟨s, hopen, Or.inl hreads⟩
  · obtain ⟨s, hopen, hreads⟩ := hopens _ (h.small.plainStep hop) hd
    exact ⟨s, hopen, Or.inr hreads⟩

theorem reopens_after_cut_bytes :
    let A := ItemArchive.ofCodec Codec.byte
    let ops : List (SwappedOp _) := [.pushBack ⟨7, rfl⟩, .pushBack ⟨8, rfl⟩, .popBack]
    ∃ s, openFiles 1 (construct (cutAt A (history A 2 ops) (.pushBack ⟨9, rfl⟩) 1)) = (true, s) ∧
      (Reads A s [⟨7, rfl⟩] ∨ Reads A s [⟨7, rfl⟩, ⟨9, rfl⟩]) := by
  intro A ops
  have hone : Fits A [⟨7, rfl⟩] := ⟨by decide, by decide⟩
  have htwo : Fits A [⟨7, rfl⟩, ⟨8, rfl⟩] := ⟨by decide, by decide⟩
  have hnine : Fits A [⟨7, rfl⟩, ⟨9, rfl⟩] := ⟨by decide, by decide⟩
  exact reopens_after_cut A Nat.two_pos ops
    ⟨⟨by decide, hone⟩, ⟨by decide, htwo⟩, List.cons_ne_nil _ _, trivial⟩ (.pushBack ⟨9, rfl⟩)
    (.pushBack _) ⟨by decide, hnine⟩ 1 Nat.one_pos

/-! ## Items of 4 GiB -/

/-- Numbers in unary, with a zero at the end. -/
def tally : ItemArchive Nat where
  chunks n := [List.replicate n 1 ++ [0]]
  read s := some (s.takeWhile (· == 1)).length
  read_chunks n rest := by
    have htake : (List.replicate n (1 : UInt8) ++ (0 :: rest)).takeWhile (· == 1) =
        List.replicate n 1 := by
      induction n with
      | zero => rfl
      | succ n ih =>
        rw [List.replicate_succ, List.cons_append, List.takeWhile_cons]
        exact congrArg (1 :: ·) ih
    rw [List.flatten_singleton, List.append_assoc, List.singleton_append, htake,
      List.length_replicate]

theorem tally_length (n : Nat) : (tally.bytes n).length = n + 1 := by
  show ([List.replicate n (1 : UInt8) ++ [0]].flatten).length = _
  rw [List.flatten_singleton, List.length_append, List.length_replicate, List.length_singleton]

/-- A number whose tally takes 4 GiB. -/
@[irreducible] def wraps : Nat := 2 ^ 32 - 1

theorem tally_wraps_length : (tally.bytes wraps).length = 2 ^ 32 := by
  rw [tally_length, wraps]
  rfl

/-- Two items pushed into new files, whatever their size. -/
theorem history_two {x y : T} (hx : Fits A [x]) (hxy : Fits A ([x] ++ [y])) {poolSize : Nat}
    (hp : 0 < poolSize) :
    Shows A (history A poolSize [.pushBack x, .pushBack y]) ([x] ++ [y]) ∧
      Stored A (history A poolSize [.pushBack x, .pushBack y]).drive ([x] ++ [y]) := by
  obtain ⟨s, hrun, h⟩ := run_blank (A := A) hp (show LegalRun A [] [] from trivial)
  obtain ⟨s₁, heq₁, hs₁, hl₁⟩ := pushBack_spec h.shows h.stored hx
  have hm₁ := hl₁.mains h.mains
  have hd₁ : Stored A s₁.drive [x] := by
    rcases hl₁.stored with hd | ⟨h0, _⟩
    · exact hd
    · rw [hm₁] at h0
      cases h0
  obtain ⟨s₂, heq₂, hs₂, hl₂⟩ := pushBack_spec hs₁ hd₁ hxy
  have hd₂ : Stored A s₂.drive ([x] ++ [y]) := by
    rcases hl₂.stored with hd | ⟨h0, _⟩
    · exact hd
    · rw [hl₂.mains hm₁] at h0
      cases h0
  have hall : history A poolSize [.pushBack x, .pushBack y] = s₂ := by
    have hopen : (step A (construct blank) (.reopen poolSize)).2 = s := congrArg Prod.snd hrun
    show (step A (step A (step A (construct blank) (.reopen poolSize)).2 (.pushBack x)).2
      (.pushBack y)).2 = s₂
    rw [hopen]
    show (doneOf (pushBack A y (doneOf (pushBack A x s)).2)).2 = s₂
    rw [heq₁]
    show (doneOf (pushBack A y s₁)).2 = s₂
    rw [heq₂]
    rfl
  rw [hall]
  exact ⟨hs₂, hd₂⟩

/-- The size of the first item is stored as zero, so that the second one is read
where the first begins. -/
theorem readOffsets_wrapped (rest : Blob) :
    readOffsets ([wraps] ++ [0]).length (sizeBytes tally ([wraps] ++ [0]) ++ rest) [] 0 =
      some ([0, 0], 1) := by
  have hslot : bytesOfPod 4 (tally.bytes wraps).length = bytesOfPod 4 0 := by
    rw [tally_wraps_length, ← bytesOfPod_mod 4]
    rfl
  have hone : (tally.bytes 0).length = 1 := tally_length 0
  have hsizes : sizeBytes tally ([wraps] ++ [0]) ++ rest =
      bytesOfPod 4 0 ++ (bytesOfPod 4 1 ++ rest) := by
    rw [sizeBytes_append, sizeBytes, List.flatMap_singleton, hslot, hone, List.append_assoc]
  rw [hsizes, show ([wraps] ++ [0] : List Nat).length = 2 from rfl, readOffsets,
    readPod_bytesOfPod (by decide)]
  simp only
  rw [readOffsets, readPod_bytesOfPod (by decide)]
  rfl

/-- A first read after opening goes to the file. -/
theorem subscript_opened {poolSize itemsFileSize index : Nat} {offsets : List Nat}
    {d : Drive FileName} {x : T} (hi : index < offsets.length) (hgood : d.good .items = true)
    (hread : A.read ((d.contents .items).drop (offsets.getD index 0)) = some x) :
    (valueOf (subscript A index (opened poolSize offsets itemsFileSize d))).1 = .value x := by
  have hlen : ¬ offsets.length ≤ index := by omega
  unfold subscript opened
  simp only [bind_apply, get_apply, Lru.find?_empty, hlen, hgood, hread, if_false,
    Bool.true_eq_false]
  rfl

/-- An item looked for at the place of another reads as that one. -/
theorem not_reads_misplaced {d : Drive FileName} {x y : T} {rest : Blob} {itemsFileSize : Nat}
    (hitems : d.file .items = some (A.bytes x ++ rest)) (hne : x ≠ y) :
    ¬ Reads A (opened 1 [0, 0] itemsFileSize d.running) [x, y] := by
  intro hreads
  have hitem : A.read ((d.running.contents .items).drop ([0, 0].getD 1 0)) = some x := by
    show A.read (((d.file .items).getD []).drop 0) = some x
    rw [hitems, Option.getD_some, List.drop_zero, A.read_bytes]
  have hvalue : (step A (opened 1 [0, 0] itemsFileSize d.running) (.subscript 1)).1 = .value x :=
    subscript_opened Nat.one_lt_two rfl hitem
  have hread := hreads.2 1
  rw [hvalue] at hread
  exact hne (SwappedOutcome.value.inj hread)

/-- After an item of 4 GiB and another one, a cut before the write of `popBack`
leaves files that open with neither content. -/
theorem reopens_with_neither :
    ∃ s, openFiles 1 (construct (cutAt tally
        (history tally 1 [.pushBack wraps, .pushBack 0]) .popBack 0)) = (true, s) ∧
      ¬ Reads tally s [wraps, 0] ∧ ¬ Reads tally s [wraps] := by
  have hone : Fits tally [wraps] := by
    refine ⟨?_, show 8 + 4 * 1 ≤ maxSize by decide⟩
    rw [itemBytes, List.flatMap_singleton, tally_wraps_length]
    decide
  have htwo : Fits tally ([wraps] ++ [0]) := by
    refine ⟨?_, show 8 + 4 * 2 ≤ maxSize by decide⟩
    rw [itemBytes_append, itemBytes, List.flatMap_singleton, List.length_append,
      tally_wraps_length, tally_length]
    decide
  obtain ⟨hs, hd⟩ := history_two hone htwo Nat.one_pos
  generalize history tally 1 [.pushBack wraps, .pushBack 0] = s at hs hd ⊢
  have hcut := cutAt_popBack_zero hs hd
  generalize cutAt tally s .popBack 0 = d at hcut ⊢
  obtain ⟨olds, holds⟩ := hcut.items
  obtain ⟨oldx, holdx⟩ := hcut.indexes
  refine ⟨_, openFiles_eq (by rw [holds]; rfl) holdx hcut.fits.length_lt (readOffsets_wrapped oldx)
    Nat.one_pos, ?_, ?_⟩
  · rw [itemBytes_append, itemBytes, List.flatMap_singleton, List.append_assoc] at holds
    refine not_reads_misplaced holds ?_
    rw [wraps]
    decide
  · intro hreads
    have hsize : 2 = 1 := hreads.1
    omega

end SwappedVector

end DarknetSpace
