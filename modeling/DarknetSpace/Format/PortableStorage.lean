import DarknetSpace.Format.Archive

/-!
# The portable storage (`portable_storage_base.h`, `portable_storage_to_bin.h`,
`portable_storage_from_bin.h`, `portable_storage.h`)

What peers and RPC clients say to each other is a tree of named values. It is
written with the shortest size marks, its sections sorted by name; the reader
takes any size mark, any order and repeated names, of which the first counts, and
leaves alone what follows the root section.

`recursuion_limitation_guard` counts the calls of the reader that are under way.
Here a reader is given the calls that are left, and the guard is the case of none.
-/

namespace DarknetSpace.PortableStorage

/-! ## Values -/

/-- The types of fixed size; a `double` and a `bool` are kept as the bytes they are copied to. -/
inductive PodType where
  | int64 | int32 | int16 | int8 | uint64 | uint32 | uint16 | uint8 | double | bool
  deriving DecidableEq

namespace PodType

/-- The bytes of a number. -/
def size : PodType → Nat
  | int64 | uint64 | double => 8
  | int32 | uint32 => 4
  | int16 | uint16 => 2
  | int8 | uint8 | bool => 1

/-- `SERIALIZE_TYPE_...` -/
def code : PodType → Nat
  | int64 => 1
  | int32 => 2
  | int16 => 3
  | int8 => 4
  | uint64 => 5
  | uint32 => 6
  | uint16 => 7
  | uint8 => 8
  | double => 9
  | bool => 11

/-- The type a reader finds under a code. -/
def ofCode : Nat → Option PodType
  | 1 => some int64
  | 2 => some int32
  | 3 => some int16
  | 4 => some int8
  | 5 => some uint64
  | 6 => some uint32
  | 7 => some uint16
  | 8 => some uint8
  | 9 => some double
  | 11 => some bool
  | _ => none

theorem ofCode_code (t : PodType) : ofCode t.code = some t := by cases t <;> rfl

end PodType

/-- A number, as the word its bytes make. -/
abbrev Pod (t : PodType) := BitVec (8 * t.size)

mutual

/-- `storage_entry`; a `section` is a list of names with their entries. -/
inductive StorageEntry where
  | pod (t : PodType) (v : Pod t)
  | string (s : Blob)
  | object (entries : List (Blob × StorageEntry))
  | array (a : ArrayEntry)

/-- `array_entry`. -/
inductive ArrayEntry where
  | pods (t : PodType) (vs : List (Pod t))
  | strings (ss : List Blob)
  | objects (ss : List (List (Blob × StorageEntry)))
  | arrays (as : List ArrayEntry)

end

/-- `section`. -/
abbrev Section := List (Blob × StorageEntry)

/-- `SERIALIZE_TYPE_STRING`. -/
def serializeTypeString : Nat := 10

/-- `SERIALIZE_TYPE_OBJECT`. -/
def serializeTypeObject : Nat := 12

/-- `SERIALIZE_TYPE_ARRAY`. -/
def serializeTypeArray : Nat := 13

/-- `SERIALIZE_FLAG_ARRAY`, set in the code of an array's elements. -/
def serializeFlagArray : Nat := 0x80

/-- `MAX_STRING_LEN_POSSIBLE`. -/
def maxStringLenPossible : Nat := 2000000000

/-! ## Writing -/

/-- The largest number there is a size mark for. -/
def maxVarint : Nat := 4611686018427387903

/-- `pack_varint`: the two low bits tell the size. -/
def packVarint (val : Nat) : Option Blob :=
  if val ≤ 63 then some (bytesOfPod 1 (4 * val))
  else if val ≤ 16383 then some (bytesOfPod 2 (4 * val + 1))
  else if val ≤ 1073741823 then some (bytesOfPod 4 (4 * val + 2))
  else if val ≤ maxVarint then some (bytesOfPod 8 (4 * val + 3))
  else none

/-- `put_string`: the length, then the bytes. -/
def putString (s : Blob) : Option Blob := do
  let size ← packVarint s.length
  some (size ++ s)

/-- The bytes of PODs. -/
def packPods (t : PodType) (vs : List (Pod t)) : Blob :=
  vs.flatMap fun v => bytesOfPod t.size v.toNat

/-- The strings of an array. -/
def putStrings : List Blob → Option Blob
  | [] => some []
  | s :: ss => do
    let bytes ← putString s
    let rest ← putStrings ss
    some (bytes ++ rest)

mutual

/-- `storage_entry_store_visitor`. -/
def packEntry : StorageEntry → Option Blob
  | .pod t v => some (bytesOfPod 1 t.code ++ bytesOfPod t.size v.toNat)
  | .string s => do
    let bytes ← putString s
    some (bytesOfPod 1 serializeTypeString ++ bytes)
  | .object entries => do
    let count ← packVarint entries.length
    let bytes ← packEntries entries
    some (bytesOfPod 1 serializeTypeObject ++ (count ++ bytes))
  | .array a => packArray a

/-- `array_entry_store_visitor`. -/
def packArray : ArrayEntry → Option Blob
  | .pods t vs => do
    let count ← packVarint vs.length
    some (bytesOfPod 1 (t.code + serializeFlagArray) ++ (count ++ packPods t vs))
  | .strings ss => do
    let count ← packVarint ss.length
    let bytes ← putStrings ss
    some (bytesOfPod 1 (serializeTypeString + serializeFlagArray) ++ (count ++ bytes))
  | .objects ss => do
    let count ← packVarint ss.length
    let bytes ← packObjects ss
    some (bytesOfPod 1 (serializeTypeObject + serializeFlagArray) ++ (count ++ bytes))
  | .arrays as => do
    let count ← packVarint as.length
    let bytes ← packArrays as
    some (bytesOfPod 1 (serializeTypeArray + serializeFlagArray) ++ (count ++ bytes))

/-- The entries of a section, each behind its name. -/
def packEntries : List (Blob × StorageEntry) → Option Blob
  | [] => some []
  | (name, e) :: entries => do
    -- `storage_entry_name is too long`
    if ¬ name.length < 255 then none
    let bytes ← packEntry e
    let rest ← packEntries entries
    some (bytesOfPod 1 name.length ++ (name ++ (bytes ++ rest)))

/-- The sections of an array. -/
def packObjects : List (List (Blob × StorageEntry)) → Option Blob
  | [] => some []
  | s :: ss => do
    let count ← packVarint s.length
    let bytes ← packEntries s
    let rest ← packObjects ss
    some (count ++ (bytes ++ rest))

/-- The arrays of an array. -/
def packArrays : List ArrayEntry → Option Blob
  | [] => some []
  | a :: as => do
    let bytes ← packArray a
    let rest ← packArrays as
    some (bytes ++ rest)

end

/-- `pack_entry_to_buff` of a section. -/
def packSection (entries : Section) : Option Blob := do
  let count ← packVarint entries.length
  let bytes ← packEntries entries
  some (count ++ bytes)

/-! ## Reading -/

/-- What the reader throws. -/
inductive StorageError where
  | recursionLimit
  | outOfBuffer
  | stringTooBig
  | unknownType
  | wrongSequence
  /-- a `boost::variant` is copied over: the result is undefined -/
  | variantOverwritten
  deriving DecidableEq

/-- A reader takes the front of the bytes and leaves the rest. -/
abbrev Read (α : Type) := Blob → Except StorageError (α × Blob)

/-- `read(void*, size_t)`. -/
def read (count : Nat) : Nat → Read Blob
  | 0, _ => .error .recursionLimit
  | _ + 1, s =>
    if s.length < count then .error .outOfBuffer else .ok (s.take count, s.drop count)

/-- `read(t_pod_type&)`. -/
def readPod (size : Nat) : Nat → Read Nat
  | 0, _ => .error .recursionLimit
  | n + 1, s => do
    let (bytes, s) ← read size n s
    .ok (podOfBytes bytes, s)

/-- `read<t_type>()` of a POD. -/
def readValue (size : Nat) : Nat → Read Nat
  | 0, _ => .error .recursionLimit
  | n + 1, s => readPod size n s

/-- The bytes a size mark stands for. -/
def markedSize (b : UInt8) : Nat :=
  match b.toNat % 4 with
  | 0 => 1
  | 1 => 2
  | 2 => 4
  | _ => 8

/-- The size mark stands in the two low bits. -/
theorem markedSize_ofNat (v : Nat) : markedSize (UInt8.ofNat v) =
    match v % 4 with
    | 0 => 1
    | 1 => 2
    | 2 => 4
    | _ => 8 := by
  unfold markedSize
  rw [UInt8.toNat_ofNat', show v % 2 ^ 8 % 4 = v % 4 by omega]

/-- `read_varint`: the two low bits of the first byte say how many bytes the size takes. -/
def readVarint : Nat → Read Nat
  | 0, _ => .error .recursionLimit
  | _ + 1, [] => .error .outOfBuffer
  | n + 1, b :: s => do
    let (v, s) ← readValue (markedSize b) n (b :: s)
    .ok (v / 4, s)

/-- `read(std::string&)`. -/
def readString : Nat → Read Blob
  | 0, _ => .error .recursionLimit
  | n + 1, s => do
    let (len, s) ← readVarint n s
    if ¬ len < maxStringLenPossible then .error .stringTooBig
    else if s.length < len then .error .outOfBuffer
    else .ok (s.take len, s.drop len)

/-- `read<std::string>()`. -/
def readStringValue : Nat → Read Blob
  | 0, _ => .error .recursionLimit
  | n + 1, s => readString n s

/-- `read_sec_name`: a name of at most 255 bytes. -/
def readSecName : Nat → Read Blob
  | 0, _ => .error .recursionLimit
  | n + 1, s => do
    let (nameLen, s) ← readPod 1 n s
    read nameLen n s

/-- A reader that is called `count` times. -/
def readAll {α : Type} (f : Read α) : Nat → Read (List α)
  | 0, s => .ok ([], s)
  | count + 1, s => do
    let (x, s) ← f s
    let (xs, s) ← readAll f count s
    .ok (x :: xs, s)

/-- `std::map::insert`: sorted by name, and the entry that is there stays. -/
def insertEntry (name : Blob) (e : StorageEntry) : Section → Section
  | [] => [(name, e)]
  | (k, v) :: entries =>
    if name < k then (name, e) :: (k, v) :: entries
    else if k < name then (k, v) :: insertEntry name e entries
    else (k, v) :: entries

/-- The entries that were read, in the order of a `std::map`; of a repeated name the first counts.
-/
def insertAll (pairs : List (Blob × StorageEntry)) : Section :=
  pairs.foldl (fun entries pair => insertEntry pair.1 pair.2 entries) []

/-- `read_ae`: a count, and as many elements. -/
def readAe {α : Type} (f : Nat → Read α) : Nat → Read (List α)
  | 0, _ => .error .recursionLimit
  | n + 1, s => do
    let (size, s) ← readVarint n s
    readAll (f n) size s

/-- `read_se` of a POD. -/
def readSe (t : PodType) : Nat → Read (Pod t)
  | 0, _ => .error .recursionLimit
  | n + 1, s => do
    let (v, s) ← readPod t.size n s
    .ok (BitVec.ofNat _ v, s)

/-- `read_se<std::string>`. -/
def readSeString : Nat → Read Blob
  | 0, _ => .error .recursionLimit
  | n + 1, s => readStringValue n s

/-- `read<t_type>()` of a POD in an array. -/
def readPodValue (t : PodType) (n : Nat) : Read (Pod t) := fun s => do
  let (v, s) ← readValue t.size n s
  .ok (BitVec.ofNat _ v, s)

/-- `read<array_entry>()` copies the bytes of the buffer over the object. -/
def readArrayValue : Nat → Read ArrayEntry := fun _ _ => .error .variantOverwritten

mutual

/-- `load_storage_entry`, by the code in front of the value. -/
def loadStorageEntry : Nat → Read StorageEntry
  | 0, _ => .error .recursionLimit
  | n + 1, s => do
    let (entType, s) ← readPod 1 n s
    if serializeFlagArray ≤ entType then
      let (a, s) ← loadStorageArrayEntry n entType s
      .ok (.array a, s)
    else if entType = serializeTypeString then
      let (v, s) ← readSeString n s
      .ok (.string v, s)
    else if entType = serializeTypeObject then
      let (entries, s) ← readSeSection n s
      .ok (.object entries, s)
    else if entType = serializeTypeArray then
      let (a, s) ← readSeArray n s
      .ok (.array a, s)
    else
      match PodType.ofCode entType with
      | none => .error .unknownType
      | some t => do
        let (v, s) ← readSe t n s
        .ok (.pod t v, s)

/-- `read_se<section>`. -/
def readSeSection : Nat → Read Section
  | 0, _ => .error .recursionLimit
  | n + 1, s => readSection n s

/-- `read_se<array_entry>`. -/
def readSeArray : Nat → Read ArrayEntry
  | 0, _ => .error .recursionLimit
  | n + 1, s => do
    let (entType, s) ← readPod 1 n s
    if serializeFlagArray ≤ entType then loadStorageArrayEntry n entType s
    else .error .wrongSequence

/-- `load_storage_array_entry`, by the code without its array flag. -/
def loadStorageArrayEntry : Nat → Nat → Read ArrayEntry
  | 0, _, _ => .error .recursionLimit
  | n + 1, type, s =>
    -- `type &= ~SERIALIZE_FLAG_ARRAY`, of one byte
    let type := type % serializeFlagArray
    if type = serializeTypeString then do
      let (ss, s) ← readAe readStringValue n s
      .ok (.strings ss, s)
    else if type = serializeTypeObject then do
      let (ss, s) ← readAeSection n s
      .ok (.objects ss, s)
    else if type = serializeTypeArray then do
      let (as, s) ← readAe readArrayValue n s
      .ok (.arrays as, s)
    else
      match PodType.ofCode type with
      | none => .error .unknownType
      | some t => do
        let (vs, s) ← readAe (readPodValue t) n s
        .ok (.pods t vs, s)

/-- `read_ae<section>`. -/
def readAeSection : Nat → Read (List Section)
  | 0, _ => .error .recursionLimit
  | n + 1, s => do
    let (size, s) ← readVarint n s
    readAll (readSectionValue n) size s

/-- `read<section>()`. -/
def readSectionValue : Nat → Read Section
  | 0, _ => .error .recursionLimit
  | n + 1, s => readSection n s

/-- `read(section&)`. -/
def readSection : Nat → Read Section
  | 0, _ => .error .recursionLimit
  | n + 1, s => do
    let (count, s) ← readVarint n s
    let (pairs, s) ← readAll (fun s => do
      let (name, s) ← readSecName n s
      let (e, s) ← loadStorageEntry n s
      .ok ((name, e), s)) count s
    .ok (insertAll pairs, s)

end

/-! ## Whole storages -/

/-- `PORTABLE_STORAGE_SIGNATUREA`. -/
def portableStorageSignatureA : Nat := 0x01011101

/-- `PORTABLE_STORAGE_SIGNATUREB`. -/
def portableStorageSignatureB : Nat := 0x01020101

/-- `PORTABLE_STORAGE_FORMAT_VER`. -/
def portableStorageFormatVer : Nat := 1

/-- `storage_block_header`, packed. -/
def storageBlockHeader : Blob :=
  bytesOfPod 4 portableStorageSignatureA ++ bytesOfPod 4 portableStorageSignatureB ++
    bytesOfPod 1 portableStorageFormatVer

/-- `EPEE_PORTABLE_STORAGE_RECURSION_LIMIT_INTERNAL`: the calls that may be under way at a time. -/
def recursionBudget : Nat := 99

/-- `store_to_binary`. -/
def storeToBinary (root : Section) : Option Blob := do
  let bytes ← packSection root
  some (storageBlockHeader ++ bytes)

/-- `load_from_binary`. -/
def loadFromBinary (source : Blob) : Option Section :=
  if source.take storageBlockHeader.length ≠ storageBlockHeader then none
  else
    match source.drop storageBlockHeader.length with
    -- `sz==0`
    | [] => none
    | b :: s =>
      match readSection recursionBudget (b :: s) with
      | .error _ => none
      | .ok (root, _) => some root

end DarknetSpace.PortableStorage
