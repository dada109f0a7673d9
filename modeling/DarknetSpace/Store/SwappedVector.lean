import DarknetSpace.Format.Archive
import DarknetSpace.Lib.Files
import DarknetSpace.Lib.Lru
import DarknetSpace.Lib.StateExn

/-!
# The file-backed vector (`SwappedVector.h`)

The main chain lives in two files. The items file holds the serialised items
one behind the other; the index file holds their number and then one 32-bit
size for each. A pool of recently used items is kept in memory.

An item is removed by lowering the number only: its bytes and its size stay
where they are until the next `pushBack` writes over them.

The operations are those of the source with its exceptions: an index behind the end, a
file that cannot be read or written. Serialising an item is a parameter (`ItemArchive`),
with what the vector relies on: an item is read back from its bytes, whatever follows.
That the vector is a plain vector is in `PlainVector`; what a loss of power leaves of
it, in `PowerCut`.
-/

namespace DarknetSpace

open Files

inductive FileName
  | items
  | indexes
deriving DecidableEq

/-- How the items are serialised: the write calls of the saving archive, and
what the loading archive makes of the bytes from some position on. -/
structure ItemArchive (T : Type) where
  chunks : T → List Blob
  read : Blob → Option T
  read_chunks : ∀ x rest, read ((chunks x).flatten ++ rest) = some x

namespace ItemArchive

variable {T : Type} (A : ItemArchive T)

def bytes (x : T) : Blob := (A.chunks x).flatten

theorem read_bytes (x : T) (rest : Blob) : A.read (A.bytes x ++ rest) = some x :=
  A.read_chunks x rest

/-- The values a codec can write, one write call for each byte. -/
def ofCodec {α : Type} (C : Codec α) : ItemArchive { x : α // (C.write x).ok = true } where
  chunks x := (C.write x.1).bytes.map fun b => [b]
  read s :=
    match h : C.read false s with
    | none => none
    | some (x, rest) => some ⟨x, C.ok_of_read false s x rest h⟩
  read_chunks x rest := by
    have hflat : ((C.write x.1).bytes.map fun b => [b]).flatten = (C.write x.1).bytes := by
      rw [← List.flatMap_def, List.flatMap_singleton']
    rw [hflat]
    have hread := C.read_write false x.1 rest x.2
    split
    · next h =>
      rw [hread] at h
      cases h
    · next y rest' h =>
      rw [hread] at h
      cases h
      rfl

/-- The items of `m_blocks`. -/
def blockEntries :
    ItemArchive { e : Archive.StoredBlockEntry // (Archive.blockEntry.write e).ok = true } :=
  ofCodec Archive.blockEntry

end ItemArchive

/-- What the operations throw. -/
inductive SwappedError
  | readIndexOverflow
  | readNoItemsFile
  | readItem
  | clearNoIndexFile
  | clearWrite
  | popNoIndexFile
  | popWrite
  | pushNoItemsFile
  | pushSave
  | pushNoIndexFile
  | pushItemSize
  | pushCount
  /-- `back()` of an empty `m_offsets` -/
  | undefinedBehaviour
deriving DecidableEq

/-- The text of the `std::runtime_error`. -/
def SwappedError.what : SwappedError → String
  | readIndexOverflow => "SwappedVector::operator[], index overflow."
  | readNoItemsFile => "SwappedVector::operator[], no items file."
  | readItem => "SwappedVector::operator[], read item from items file error"
  | clearNoIndexFile => "SwappedVector::clear, no index file."
  | clearWrite => "SwappedVector::clear, write index file error."
  | popNoIndexFile => "SwappedVector::pop_back, no index file."
  | popWrite => "SwappedVector::pop_back, write index file error."
  | pushNoItemsFile => "SwappedVector::push_back, no items file."
  | pushSave => "SwappedVector::push_back, save to item file error."
  | pushNoIndexFile => "SwappedVector::push_back, no index file."
  | pushItemSize => "SwappedVector::push_back, write itemSize to index file, error."
  | pushCount => "SwappedVector::push_back, write count to index file, error."
  | undefinedBehaviour => ""

/-- The object and the drive its streams work on. -/
structure SwappedVector (T : Type) where
  drive : Drive FileName
  mPoolSize : Nat
  mOffsets : List Nat
  mItemsFileSize : Nat
  /-- `m_items` and `m_cache` -/
  pool : Lru Nat T compare
  mCacheHits : Nat
  mCacheMisses : Nat

abbrev SwappedM (T : Type) := EStateM SwappedError (SwappedVector T)

namespace SwappedVector

variable {T : Type} (A : ItemArchive T)

/-- A new object on the drive. Its members are set by `openFiles`. -/
def construct (drive : Drive FileName) : SwappedVector T :=
  { drive := drive.restart, mPoolSize := 0, mOffsets := [], mItemsFileSize := 0,
    pool := Lru.empty, mCacheHits := 0, mCacheMisses := 0 }

/-- Read an integer of `n` bytes from the front. -/
def readPod (n : Nat) (s : Blob) : Option (Nat × Blob) :=
  if s.length < n then none else some (podOfBytes (s.take n), s.drop n)

/-- The loop of `openFiles`: `count` sizes give the offsets and the size of the file. -/
def readOffsets : Nat → Blob → List Nat → Nat → Option (List Nat × Nat)
  | 0, _, offsets, itemsFileSize => some (offsets, itemsFileSize)
  | count + 1, s, offsets, itemsFileSize =>
    match readPod 4 s with
    | none => none
    | some (itemSize, rest) =>
      readOffsets count rest (offsets ++ [itemsFileSize]) ((itemsFileSize + itemSize) % 2 ^ 64)

/-- The members `openFiles` sets once the files are there. -/
def opened (poolSize : Nat) (offsets : List Nat) (itemsFileSize : Nat) (drive : Drive FileName) :
    SwappedVector T :=
  { drive, mPoolSize := poolSize, mOffsets := offsets, mItemsFileSize := itemsFileSize,
    pool := Lru.empty, mCacheHits := 0, mCacheMisses := 0 }

/-- The branch of `openFiles` for files that are there. -/
def openExisting (poolSize : Nat) (s : SwappedVector T) : Bool × SwappedVector T :=
  match readPod 8 (s.drive.contents .indexes) with
  | none => (false, s)
  | some (count, rest) =>
    match readOffsets count rest [] 0 with
    | none => (false, s)
    | some (offsets, itemsFileSize) => (true, opened poolSize offsets itemsFileSize s.drive)

/-- The branch of `openFiles` that makes new files. -/
def openNew (poolSize : Nat) (s : SwappedVector T) : Bool × SwappedVector T :=
  let drive := s.drive.openOut .items
  let drive := drive.close .items
  let drive := drive.openInOut .items
  let drive := drive.openOut .indexes
  let drive := drive.write .indexes 0 (bytesOfPod 8 0)
  if drive.good .indexes then
    let drive := drive.close .indexes
    let drive := drive.openInOut .indexes
    (true, opened poolSize [] 0 drive)
  else (false, { s with drive })

/-- `open`. -/
def openFiles (poolSize : Nat) (s : SwappedVector T) : Bool × SwappedVector T :=
  if poolSize = 0 then (false, s)
  else
    let drive := (s.drive.openInOut .items).openInOut .indexes
    let s := { s with drive }
    if drive.good .items ∧ drive.good .indexes then openExisting poolSize s
    else openNew poolSize s

def size (s : SwappedVector T) : Nat := s.mOffsets.length

/-- `operator[]`. -/
def subscript (index : Nat) : SwappedM T T := do
  let s ← get
  match s.pool.find? index with
  | some item =>
    set { s with pool := s.pool.touch index, mCacheHits := (s.mCacheHits + 1) % 2 ^ 64 }
    return item
  | none =>
    if s.mOffsets.length ≤ index then throw .readIndexOverflow
    if s.drive.good .items = false then throw .readNoItemsFile
    match A.read ((s.drive.contents .items).drop (s.mOffsets.getD index 0)) with
    | none => throw .readItem
    | some item =>
      set { s with
        pool := s.pool.put s.mPoolSize index item
        mCacheMisses := (s.mCacheMisses + 1) % 2 ^ 64 }
      return item

def front : SwappedM T T := subscript A 0

def back : SwappedM T T := do
  subscript A (((← get).mOffsets.length + 2 ^ 64 - 1) % 2 ^ 64)

def clear : SwappedM T Unit := do
  let s ← get
  if s.drive.good .indexes = false then throw .clearNoIndexFile
  let drive := s.drive.write .indexes 0 (bytesOfPod 8 0)
  set { s with drive }
  if drive.good .indexes = false then throw .clearWrite
  set { s with
    drive
    mOffsets := []
    mItemsFileSize := 0
    pool := (Lru.empty : Lru Nat T compare) }

def popBack : SwappedM T Unit := do
  let s ← get
  if s.drive.good .indexes = false then throw .popNoIndexFile
  let count := (s.mOffsets.length + 2 ^ 64 - 1) % 2 ^ 64
  let drive := s.drive.write .indexes 0 (bytesOfPod 8 count)
  set { s with drive }
  if drive.good .indexes = false then throw .popWrite
  match s.mOffsets.getLast? with
  | none => throw .undefinedBehaviour
  | some last =>
    set { s with
      drive
      mItemsFileSize := last
      mOffsets := s.mOffsets.dropLast
      pool := s.pool.erase s.mOffsets.dropLast.length }

def pushBack (item : T) : SwappedM T Unit := do
  let s ← get
  if s.drive.good .items = false then throw .pushNoItemsFile
  let drive := s.drive.writeChunks .items s.mItemsFileSize (A.chunks item)
  set { s with drive }
  if drive.good .items = false then throw .pushSave
  let itemsFileSize := s.mItemsFileSize + (A.bytes item).length
  if drive.good .indexes = false then throw .pushNoIndexFile
  let itemSize := (itemsFileSize - s.mItemsFileSize) % 2 ^ 32
  let drive := drive.write .indexes (8 + 4 * s.mOffsets.length) (bytesOfPod 4 itemSize)
  set { s with drive }
  if drive.good .indexes = false then throw .pushItemSize
  let drive := drive.write .indexes 0 (bytesOfPod 8 ((s.mOffsets.length + 1) % 2 ^ 64))
  set { s with drive }
  if drive.good .indexes = false then throw .pushCount
  let offsets := s.mOffsets ++ [s.mItemsFileSize]
  set { s with
    drive
    mOffsets := offsets
    mItemsFileSize := itemsFileSize
    pool := s.pool.put s.mPoolSize (offsets.length - 1) item }

end SwappedVector

/-! ## Runs -/

inductive SwappedOp (T : Type)
  /-- destroy the object, make another one and open the files with it -/
  | reopen (poolSize : Nat)
  | pushBack (item : T)
  | popBack
  | clear
  | subscript (index : UInt64)
  | front
  | back

inductive SwappedOutcome (T : Type)
  | opened (ok : Bool)
  | done
  | value (item : T)
  | threw (e : SwappedError)
deriving DecidableEq

namespace SwappedVector

variable {T : Type}

def doneOf : EStateM.Result SwappedError (SwappedVector T) Unit → SwappedOutcome T × SwappedVector T
  | .ok _ s => (.done, s)
  | .error e s => (.threw e, s)

def valueOf : EStateM.Result SwappedError (SwappedVector T) T → SwappedOutcome T × SwappedVector T
  | .ok x s => (.value x, s)
  | .error e s => (.threw e, s)

def step (A : ItemArchive T) (s : SwappedVector T) :
    SwappedOp T → SwappedOutcome T × SwappedVector T
  | .reopen poolSize => ((openFiles poolSize (construct s.drive)).map .opened id)
  | .pushBack item => doneOf (pushBack A item s)
  | .popBack => doneOf (popBack s)
  | .clear => doneOf (clear s)
  | .subscript index => valueOf (subscript A index.toNat s)
  | .front => valueOf (front A s)
  | .back => valueOf (back A s)

/-- What each call of a run gave, and the object at its end. -/
def run (A : ItemArchive T) (s : SwappedVector T) :
    List (SwappedOp T) → List (SwappedOutcome T) × SwappedVector T
  | [] => ([], s)
  | op :: ops =>
    let (out, s') := step A s op
    let (outs, s'') := run A s' ops
    (out :: outs, s'')

end SwappedVector

end DarknetSpace
