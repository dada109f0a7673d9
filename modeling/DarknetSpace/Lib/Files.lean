import Mathlib.Algebra.Group.Nat.Defs
import Mathlib.Logic.Function.Basic

/-!
# Files behind streams

A drive holds files of bytes under the names `F`; a program works on them
through one stream for each name, which is open or not and has failed or not.
A failed stream writes nothing until it is opened again. No file grows past
`maxSize`, the largest position a stream can name.

`power` counts the write calls the drive still carries out: after them it
keeps what it has, whatever is written. With `none` the power never goes.

`Ready` says what an open stream with a good state writes, and `Behind` what a file
holds behind a place after writes in front of it. Both are kept by write calls of any
sizes (`writeChunks`), up to the call at which the power goes; from there on nothing
changes any more.
-/

namespace Files

/-- Overwrite a file from `pos` on. A gap before `pos` is filled with zeros. -/
def overwrite (f : List UInt8) (pos : Nat) (bs : List UInt8) : List UInt8 :=
  f.take pos ++ List.replicate (pos - f.length) 0 ++ bs ++ f.drop (pos + bs.length)

/-- Writing behind a front leaves the front. -/
theorem overwrite_append (front old bs : List UInt8) :
    overwrite (front ++ old) front.length bs = front ++ (bs ++ old.drop bs.length) := by
  have hgap : front.length - (front ++ old).length = 0 := by
    rw [List.length_append]
    omega
  have hdrop : (front ++ old).drop (front.length + bs.length) = old.drop bs.length := by
    rw [← List.drop_drop, List.drop_left]
  unfold overwrite
  rw [List.take_left, hgap, List.replicate_zero, List.append_nil, hdrop, List.append_assoc]

/-- Writing as many bytes as a front has replaces the front. -/
theorem overwrite_front {a bs : List UInt8} (h : bs.length = a.length) (tail : List UInt8) :
    overwrite (a ++ tail) 0 bs = bs ++ tail := by
  have hfull := overwrite_append [] (a ++ tail) bs
  rw [List.nil_append, List.nil_append, h, List.drop_left] at hfull
  exact hfull

/-- A stream: whether it is open and whether it has failed. -/
structure Stream where
  isOpen : Bool
  fail : Bool
deriving DecidableEq

/-- The largest value of a signed 64-bit file position. -/
def maxSize : Nat := 2 ^ 63 - 1

/-- The files, the streams on them and the write calls left before the power goes. -/
structure Drive (F : Type) where
  file : F → Option (List UInt8)
  power : Option Nat
  stream : F → Stream

namespace Drive

variable {F : Type} [DecidableEq F]

/-- `std::ios::good`. -/
def good (d : Drive F) (f : F) : Bool := !(d.stream f).fail

/-- The bytes of a file, none if there is no such file. -/
def contents (d : Drive F) (f : F) : List UInt8 := (d.file f).getD []

/-- The drive with the bytes of one file replaced. -/
def setFile (d : Drive F) (f : F) (bytes : List UInt8) : Drive F :=
  { d with file := Function.update d.file f (some bytes) }

/-- The drive with the state of one stream replaced. -/
def setStream (d : Drive F) (f : F) (s : Stream) : Drive F :=
  { d with stream := Function.update d.stream f s }

/-- Open for reading and writing: the file must be there. -/
def openInOut (d : Drive F) (f : F) : Drive F :=
  if (d.stream f).isOpen then d.setStream f ⟨true, true⟩
  else if (d.file f).isSome then d.setStream f ⟨true, false⟩
  else d.setStream f ⟨false, true⟩

/-- Open for writing: an empty file, made anew or truncated. -/
def openOut (d : Drive F) (f : F) : Drive F :=
  if (d.stream f).isOpen then d.setStream f ⟨true, true⟩
  else (d.setFile f []).setStream f ⟨true, false⟩

/-- `std::basic_fstream::close`: closing a stream that is not open fails it. -/
def close (d : Drive F) (f : F) : Drive F :=
  if (d.stream f).isOpen then d.setStream f ⟨false, (d.stream f).fail⟩
  else d.setStream f ⟨false, true⟩

/-- One write call at position `pos`. -/
def write (d : Drive F) (f : F) (pos : Nat) (bs : List UInt8) : Drive F :=
  if (d.stream f).fail then d
  else if (d.stream f).isOpen = false ∨ maxSize < pos + bs.length then
    d.setStream f ⟨(d.stream f).isOpen, true⟩
  else match d.power with
    | none => d.setFile f (overwrite (d.contents f) pos bs)
    | some 0 => d
    | some (n + 1) => { d.setFile f (overwrite (d.contents f) pos bs) with power := some n }

/-- One write call for each chunk, one behind the other. -/
def writeChunks (d : Drive F) (f : F) (pos : Nat) : List (List UInt8) → Drive F
  | [] => d
  | bs :: rest => (d.write f pos bs).writeChunks f (pos + bs.length) rest

/-- What a new process finds: the files, with every stream closed. -/
def restart (d : Drive F) : Drive F :=
  { d with power := none, stream := fun _ => ⟨false, false⟩ }

/-- The same with every stream open. -/
def running (d : Drive F) : Drive F :=
  { d with power := none, stream := fun _ => ⟨true, false⟩ }

/-! ## What a write call does -/

variable {d : Drive F} {f f' : F} {pos : Nat} {bs : List UInt8}

/-- A closed stream opens on a file that exists. -/
theorem openInOut_of_file (ho : (d.stream f).isOpen = false) (hf : (d.file f).isSome = true) :
    d.openInOut f = d.setStream f ⟨true, false⟩ := by
  unfold openInOut
  rw [if_neg (by rw [ho]; exact Bool.false_ne_true), if_pos hf]

/-! An open stream cannot be opened again, and stays as it is when others are. -/

/-- Opening an open stream for reading and writing fails it. -/
theorem stream_openInOut_of_open (h : (d.stream f).isOpen = true) :
    (d.openInOut f).stream f = ⟨true, true⟩ := by
  rw [openInOut, if_pos h]
  exact Function.update_self _ _ _

/-- Opening an open stream for writing fails it. -/
theorem stream_openOut_of_open (h : (d.stream f).isOpen = true) :
    (d.openOut f).stream f = ⟨true, true⟩ := by
  rw [openOut, if_pos h]
  exact Function.update_self _ _ _

/-- Opening one stream leaves the others. -/
theorem stream_openInOut_ne (h : f' ≠ f) : (d.openInOut f).stream f' = d.stream f' := by
  unfold openInOut setStream
  split
  · exact Function.update_of_ne h _ _
  · split <;> exact Function.update_of_ne h _ _

/-- Opening one stream leaves the others. -/
theorem stream_openOut_ne (h : f' ≠ f) : (d.openOut f).stream f' = d.stream f' := by
  unfold openOut setStream setFile
  split <;> exact Function.update_of_ne h _ _

/-- Closing one stream leaves the others. -/
theorem stream_close_ne (h : f' ≠ f) : (d.close f).stream f' = d.stream f' := by
  unfold close setStream
  split <;> exact Function.update_of_ne h _ _

/-- A failed stream writes nothing. -/
theorem write_of_fail (h : (d.stream f).fail = true) : d.write f pos bs = d := if_pos h

/-- The streams are open, and none has failed. -/
def Ready (d : Drive F) : Prop := ∀ f, d.stream f = ⟨true, false⟩

omit [DecidableEq F] in
/-- All streams of a ready drive are good. -/
theorem Ready.good (h : d.Ready) (f : F) : d.good f = true := by
  rw [Drive.good, h f]
  rfl

/-- A write that fits leaves the streams as they are, and is carried out if
there is power for it. -/
theorem Ready.write (h : d.Ready) (hfit : pos + bs.length ≤ maxSize) :
    (d.write f pos bs).Ready ∧
    ((d.power = some 0 ∧ d.write f pos bs = d) ∨
      (d.power ≠ some 0 ∧
        (d.write f pos bs).file = Function.update d.file f (some (overwrite (d.contents f) pos bs)) ∧
        (d.write f pos bs).power = d.power.map (· - 1))) := by
  have hs := h f
  have hclosed : ¬ ((d.stream f).isOpen = false ∨ maxSize < pos + bs.length) := by
    rw [hs]
    rintro (ho | hl)
    · cases ho
    · omega
  unfold Drive.write
  rw [if_neg (by rw [hs]; decide), if_neg hclosed]
  split
  · next hp =>
    refine ⟨h, Or.inr ⟨?_, rfl, ?_⟩⟩
    · rw [hp]
      exact nofun
    · show d.power = _
      rw [hp]
      rfl
  · next hp => exact ⟨h, Or.inl ⟨hp, rfl⟩⟩
  · next n hp =>
    refine ⟨h, Or.inr ⟨?_, rfl, ?_⟩⟩
    · rw [hp]
      intro he
      cases he
    · rw [hp]
      rfl

/-- What the drive may look like after writes behind `front` in `f` that
should have put `bs` there: if there is power left, `bs` is there. -/
structure Behind (d d' : Drive F) (f : F) (front bs : List UInt8) : Prop where
  ready : d'.Ready
  others : ∀ f', f' ≠ f → d'.file f' = d.file f'
  kept : ∃ old, d'.file f = some (front ++ old)
  done : d'.power ≠ some 0 → ∃ old, d'.file f = some (front ++ (bs ++ old))
  mains : d.power = none → d'.power = none
  dead : d.power = some 0 → d' = d

/-- One write behind a front. -/
theorem Ready.write_behind (h : d.Ready) {front old : List UInt8}
    (hf : d.file f = some (front ++ old)) (hfit : front.length + bs.length ≤ maxSize) :
    Behind d (d.write f front.length bs) f front bs := by
  obtain ⟨hready, ⟨hp, hw⟩ | ⟨hp, hw, hpow⟩⟩ := h.write (f := f) hfit
  · -- the power is gone
    refine ⟨hready, ?_, ⟨old, ?_⟩, ?_, ?_, fun _ => hw⟩
    · intro f' _
      rw [hw]
    · rw [hw, hf]
    · intro hne
      rw [hw] at hne
      exact absurd hp hne
    · intro hn
      rw [hp] at hn
      cases hn
  · rw [contents, hf, Option.getD_some, overwrite_append] at hw
    have hself : (d.write f front.length bs).file f = some (front ++ (bs ++ old.drop bs.length)) := by
      rw [hw, Function.update_self]
    refine ⟨hready, ?_, ⟨_, hself⟩, fun _ => ⟨_, hself⟩, ?_, fun h0 => absurd h0 hp⟩
    · intro f' hne
      rw [hw, Function.update_of_ne hne]
    · intro hn
      rw [hpow, hn]
      rfl

/-- Writing as many bytes over the front of a file leaves its tail. -/
theorem Ready.write_front (h : d.Ready) {a tail : List UInt8} (hf : d.file f = some (a ++ tail))
    (hlen : bs.length = a.length) (hfit : bs.length ≤ maxSize) (hp : d.power ≠ some 0) :
    (d.write f 0 bs).file = Function.update d.file f (some (bs ++ tail)) := by
  rcases (h.write (f := f) (by rw [Nat.zero_add]; exact hfit)).2 with hw | hw
  · exact absurd hw.1 hp
  · rw [hw.2.1, contents, hf, Option.getD_some, overwrite_front hlen]

omit [DecidableEq F] in
/-- Two writes one behind the other, the second of which happens only with power left. -/
theorem Behind.trans {d₁ d₂ d₃ : Drive F} {front bs bs' : List UInt8}
    (h : Behind d₁ d₂ f front bs) (h' : d₂.power ≠ some 0 → Behind d₂ d₃ f (front ++ bs) bs')
    (hdead : d₂.power = some 0 → d₃ = d₂) : Behind d₁ d₃ f front (bs ++ bs') := by
  by_cases hp : d₂.power = some 0
  · rw [hdead hp]
    exact ⟨h.ready, h.others, h.kept, fun hne => absurd hp hne, h.mains, h.dead⟩
  · have h₂ := h' hp
    refine ⟨h₂.ready, ?_, ?_, ?_, fun hn => h₂.mains (h.mains hn), ?_⟩
    · intro f' hne
      rw [h₂.others f' hne, h.others f' hne]
    · obtain ⟨old, hold⟩ := h₂.kept
      exact ⟨bs ++ old, by rw [hold, List.append_assoc]⟩
    · intro hne
      obtain ⟨old, hold⟩ := h₂.done hne
      exact ⟨old, by rw [hold, List.append_assoc, List.append_assoc]⟩
    · intro h0
      rw [h.dead h0] at hp
      exact absurd h0 hp

/-- Without power nothing is written. -/
theorem Ready.writeChunks_dead (h : d.Ready) (hp : d.power = some 0) (chunks : List (List UInt8))
    (hfit : pos + chunks.flatten.length ≤ maxSize) : d.writeChunks f pos chunks = d := by
  induction chunks generalizing pos with
  | nil => rfl
  | cons bs rest ih =>
    rw [List.flatten_cons, List.length_append] at hfit
    have hbs : pos + bs.length ≤ maxSize := by omega
    have hsame : d.write f pos bs = d := by
      rcases (h.write (f := f) hbs).2 with hw | hw
      · exact hw.2
      · exact absurd hp hw.1
    rw [Drive.writeChunks, hsame]
    exact ih (by omega)

/-- A row of writes ends behind the front with a prefix of the chunks: by induction on them. -/
theorem Ready.writeChunks_behind (h : d.Ready) {front old : List UInt8}
    (hf : d.file f = some (front ++ old)) (chunks : List (List UInt8))
    (hfit : front.length + chunks.flatten.length ≤ maxSize) :
    Behind d (d.writeChunks f front.length chunks) f front chunks.flatten := by
  induction chunks generalizing d front old with
  | nil =>
    exact ⟨h, fun _ _ => rfl, ⟨old, hf⟩, fun _ => ⟨old, hf⟩, fun hn => hn, fun _ => rfl⟩
  | cons bs rest ih =>
    rw [List.flatten_cons, List.length_append] at hfit
    have hbs : front.length + bs.length ≤ maxSize := by omega
    have hfirst := h.write_behind hf hbs
    rw [List.flatten_cons, Drive.writeChunks]
    refine hfirst.trans ?_ ?_
    · intro hp
      obtain ⟨old', hold'⟩ := hfirst.done hp
      rw [← List.append_assoc] at hold'
      have hlen : front.length + bs.length = (front ++ bs).length := by
        rw [List.length_append]
      rw [hlen]
      exact ih hfirst.ready hold' (by rw [List.length_append]; omega)
    · intro hp
      exact hfirst.ready.writeChunks_dead hp rest (by omega)

end Drive

end Files
