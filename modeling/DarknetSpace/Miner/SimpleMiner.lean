import DarknetSpace.Core.Zone
import DarknetSpace.Format.PadRuns
import DarknetSpace.Format.Archive

/-!
# The external miner's scratchpad (`simpleminer.cpp`)

The external miner keeps a copy of the daemon's scratchpad and the height and id of
the block it belongs to. With every job it reports that label, the daemon answers
with the addenda of the blocks above it (`get_addendum_for_hi`), and the miner pushes
them onto its copy (`apply_addendums`).

A block id in a message is hexadecimal text that `pod_to_hex` wrote; it stands here
as the hash it spells, which is what `hex_to_pod` reads back.

The list of addenda the miner wants for undoing a split is read, cut and cleared,
but nothing in the program adds to it: it is empty in every run (`Reached`), and a
split always ends in `return false` and a fresh download. What is not noticed at all
is a split that leaves the daemon at the miner's height: the daemon compares heights
before ids and answers that there is nothing to do.
-/

namespace DarknetSpace

/-- `height_info`: a height, and the block there. -/
structure HeightInfo where
  height : UInt64
  id : Hash
  deriving DecidableEq

/-- What one block adds to the scratchpad. -/
structure Addendum where
  hi : HeightInfo
  prevId : Hash
  addm : List Hash
  deriving DecidableEq

/-- The scratchpad of the pool's miner, how far it goes, and the last addendums. -/
structure SimpleMiner where
  mBlocksAddendums : List Addendum
  mHi : HeightInfo
  mScratchpad : List Hash
  deriving DecidableEq

/-! ## The daemon's side (`core_rpc_server.cpp`) -/

/-- `AUTO_VAL_INIT` of a block. -/
def Block.valueInitialized : Block := ⟨⟨0, 0, 0, nullHash, 0, 0⟩, ⟨⟨0, 0, [], [], []⟩, []⟩, []⟩

/-- `get_top_block` -/
def getTopBlock (s : Storage) : Block :=
  match s.mBlocks.getLast? with
  | some e => e.bl
  | none => Block.valueInitialized

/-- The height info of the daemon. -/
def getCurrentHi (env : Env) (s : Storage) : HeightInfo :=
  ⟨getBlockHeight (getTopBlock s), getBlockHash env (getTopBlock s)⟩

/-- `get_block_id_by_height` -/
def getBlockIdByHeight (env : Env) (s : Storage) (height : Nat) : Hash :=
  match s.mBlocks[height]? with
  | some e => getBlockHash env e.bl
  | none => nullHash

/-- `get_blocks` -/
def getBlocks (s : Storage) (startOffset count : Nat) : Bool × List Block :=
  if s.mBlocks.length ≤ startOffset then (false, [])
  else (true, ((s.mBlocks.drop startOffset).take count).map (·.bl))

/-- The addenda of the blocks, up to the first block that has none. -/
def addendumsOf (env : Env) : List Block → Except Exn (Bool × List Addendum)
  | [] => .ok (true, [])
  | b :: rest =>
    match getBlockScratchpadAddendum env b with
    | .error e => .error e
    | .ok (false, _) => .ok (false, [⟨⟨getBlockHeight b, getBlockHash env b⟩, b.prevId, []⟩])
    | .ok (true, ad) =>
      match addendumsOf env rest with
      | .error e => .error e
      | .ok (r, addms) => .ok (r, ⟨⟨getBlockHeight b, getBlockHash env b⟩, b.prevId, ad⟩ :: addms)

/-- Another block at the miner's height is probably a split of one block. -/
def addendumHeight (env : Env) (s : Storage) (hi : HeightInfo) : Nat :=
  if getBlockIdByHeight env s hi.height.toNat ≠ hi.id then hi.height.toNat - 1
  else hi.height.toNat

/-- The addendums of all blocks above a height. -/
def addendumsAbove (env : Env) (s : Storage) (height : Nat) : Except Exn (Bool × List Addendum) :=
  let blocks := getBlocks s (height + 1) (s.getCurrentBlockchainHeight - (height + 1))
  if blocks.1 then addendumsOf env blocks.2 else .ok (false, [])

/-- `get_addendum_for_hi`: nothing at the top, nothing and no success for a height the chain has not got. -/
def getAddendumForHi (env : Env) (s : Storage) (hi : HeightInfo) :
    Except Exn (Bool × List Addendum) :=
  if hi.height = 0 ∨ hi.height.toNat + 1 = s.getCurrentBlockchainHeight then .ok (true, [])
  else if s.getCurrentBlockchainHeight ≤ hi.height.toNat then .ok (false, [])
  else if getBlockIdByHeight env s hi.height.toNat = nullHash then .ok (false, [])
  else addendumsAbove env s (addendumHeight env s hi)

/-! ## The miner's side -/

namespace SimpleMiner

/-- A miner that starts anew. -/
def resetScratchpad : SimpleMiner := ⟨[], ⟨0, 0⟩, []⟩

/-- `pop_addendum` -/
def popAddendum (m : SimpleMiner) (add : Addendum) : Bool × SimpleMiner :=
  if m.mScratchpad.length ≤ add.addm.length then (false, m)
  else
    let start := m.mScratchpad.length - add.addm.length
    let patch := getScratchpadPatch start add.addm ∅
    (true, { m with mScratchpad := (applyScratchpadPatch m.mScratchpad patch).take start })

/-- `push_addendum` -/
def pushAddendum (m : SimpleMiner) (add : Addendum) : SimpleMiner :=
  let patch := getScratchpadPatch m.mScratchpad.length add.addm ∅
  { m with mScratchpad := applyScratchpadPatch m.mScratchpad patch ++ add.addm }

/-- The loop over the addenda to take back moves the wrong iterator: it takes the last
one back again and again, until that fails or the iterator leaves the list. -/
def popAgain (add : Addendum) : Nat → SimpleMiner → Except Exn (Bool × SimpleMiner)
  | 0, _ => .error .undefinedBehaviour
  | steps + 1, m =>
    match m.popAddendum add with
    | (false, m) => .ok (false, m)
    | (true, m) => popAgain add steps m

/-- Take back what lies above the addendum of the block `pid`. -/
def unpatch (m : SimpleMiner) (pid : Hash) : Except Exn (Bool × SimpleMiner) :=
  match m.mBlocksAddendums.findIdx? (fun a => a.hi.id = pid), m.mBlocksAddendums.getLast? with
  | some k, some last =>
    if k + 1 = m.mBlocksAddendums.length then
      .ok (true, { m with mBlocksAddendums := m.mBlocksAddendums.take (k + 1) })
    else popAgain last (k + 1) m
  | _, _ => .ok (false, m)

/-- Several of them, and how far they go. -/
def pushAddendums (m : SimpleMiner) (addms : List Addendum) (hi : HeightInfo) : SimpleMiner :=
  { addms.foldl pushAddendum m with mHi := hi }

/-- `apply_addendums`: back to where the first of them starts, then forward. -/
def applyAddendums (m : SimpleMiner) (addms : List Addendum) : Except Exn (Bool × SimpleMiner) :=
  match addms.head?, addms.getLast? with
  | some first, some last =>
    if first.prevId ≠ m.mHi.id then
      match m.unpatch first.prevId with
      | .error e => .error e
      | .ok (false, m) => .ok (false, m)
      | .ok (true, m) => .ok (true, m.pushAddendums addms last.hi)
    else .ok (true, m.pushAddendums addms last.hi)
  | _, _ => .ok (true, m)

end SimpleMiner

/-! ## Files -/

/-- `sizeof(export_scratchpad_file_header)`: the label, ten unused entries of 48 bytes
and the size of the scratchpad in words. -/
def scratchpadHeaderSize : Nat := 528

/-- The header of the cache file. -/
def scratchpadFileHeader (hi : HeightInfo) (scratchpadSize : UInt64) : Blob :=
  bytesOfPod 32 hi.id.toNat ++ (bytesOfPod 8 hi.height.toNat ++ (List.replicate 480 0 ++
    bytesOfPod 8 scratchpadSize.toNat))

/-- The cache file: its header and the hashes. -/
def scratchpadFile (hi : HeightInfo) (pad : List Hash) : Blob :=
  scratchpadFileHeader hi (UInt64.ofNat pad.length * 4) ++ pad.flatMap fun h => bytesOfPod 32 h.toNat

/-- What `extport_scratchpad_to_file` writes. -/
def extportScratchpadToFile (env : Env) (s : Storage) : Blob :=
  scratchpadFile ⟨UInt64.ofNat (s.mBlocks.length - 1), getBlockHash env (getTopBlock s)⟩ s.mScratchpad

/-- `memcpy` into a vector of hashes. -/
def hashesOf : Nat → Blob → List Hash
  | 0, _ => []
  | count + 1, bs => BitVec.ofNat 256 (podOfBytes (bs.take 32)) :: hashesOf count (bs.drop 32)

namespace SimpleMiner

/-- What `store_scratchpad_to_file` writes. -/
def storeScratchpadToFile (m : SimpleMiner) : Blob := scratchpadFile m.mHi m.mScratchpad

/-- `pscr_header->scratchpad_size`. -/
def headerScratchpadSize (buff : Blob) : Nat := podOfBytes ((buff.drop 520).take 8)

/-- `pscr_header->current_hi`. -/
def headerHi (buff : Blob) : HeightInfo :=
  ⟨UInt64.ofNat (podOfBytes ((buff.drop 32).take 8)), BitVec.ofNat 256 (podOfBytes (buff.take 32))⟩

/-- `load_scratchpad_from_file`, given the time and the content of the file if it is
there; `none` where the vector cannot be made as large as the header says. -/
def loadScratchpadFromFile (path : Blob) (file : Option (Int × Blob)) (now : Int) :
    Option (Bool × SimpleMiner) :=
  if path.length = 0 then some (false, resetScratchpad)
  else
    match file with
    | none => some (false, resetScratchpad)
    | some (fileTime, buff) =>
      if now - fileTime > 60 * 60 * 24 * 3 then some (false, resetScratchpad)
      else if buff.length < scratchpadHeaderSize then some (false, resetScratchpad)
      else if headerScratchpadSize buff * 8 % 2 ^ 64 ≠ buff.length - scratchpadHeaderSize ∨
          headerScratchpadSize buff % 4 ≠ 0 then some (false, resetScratchpad)
      else if 2 ^ 64 ≤ headerScratchpadSize buff * 8 then none
      else some (true, ⟨[], headerHi buff,
        hashesOf (headerScratchpadSize buff / 4) (buff.drop scratchpadHeaderSize)⟩)

/-! ### Reading back what was written -/

theorem scratchpadFileHeader_length (hi : HeightInfo) (size : UInt64) :
    (scratchpadFileHeader hi size).length = scratchpadHeaderSize := by
  unfold scratchpadFileHeader scratchpadHeaderSize
  simp only [List.length_append, bytesOfPod_length, List.length_replicate]

/-- A hash takes 32 bytes. -/
theorem flatMap_bytesOfPod_length (pad : List Hash) :
    (pad.flatMap fun h => bytesOfPod 32 h.toNat).length = pad.length * 32 := by
  induction pad with
  | nil => rfl
  | cons h rest ih =>
    rw [List.flatMap_cons, List.length_append, bytesOfPod_length, ih, List.length_cons]
    omega

/-- Hashes are read back from their bytes, -/
theorem hashesOf_flatMap (pad : List Hash) :
    hashesOf pad.length (pad.flatMap fun h => bytesOfPod 32 h.toNat) = pad := by
  induction pad with
  | nil => rfl
  | cons h rest ih =>
    have hlen := bytesOfPod_length 32 h.toNat
    rw [List.length_cons, List.flatMap_cons, hashesOf, List.take_left' hlen, List.drop_left' hlen, ih,
      podOfBytes_bytesOfPod h.isLt, BitVec.ofNat_toNat, BitVec.setWidth_eq]

/-- the height info from the header, -/
theorem headerHi_scratchpadFile (hi : HeightInfo) (pad : List Hash) :
    headerHi (scratchpadFile hi pad) = hi := by
  have hid := bytesOfPod_length 32 hi.id.toNat
  have hheight := bytesOfPod_length 8 hi.height.toNat
  have hidBytes : podOfBytes (bytesOfPod 32 hi.id.toNat) = hi.id.toNat :=
    podOfBytes_bytesOfPod hi.id.isLt
  have hheightBytes : podOfBytes (bytesOfPod 8 hi.height.toNat) = hi.height.toNat :=
    podOfBytes_bytesOfPod hi.height.toNat_lt
  unfold headerHi scratchpadFile scratchpadFileHeader
  rw [List.append_assoc, List.take_left' hid, List.drop_left' hid, List.append_assoc,
    List.take_left' hheight, hidBytes, hheightBytes, BitVec.ofNat_toNat, BitVec.setWidth_eq,
    UInt64.ofNat_toNat]

/-- and the size, in words. -/
theorem headerScratchpadSize_scratchpadFile (hi : HeightInfo) {pad : List Hash}
    (hfits : pad.length * 32 < 2 ^ 64) :
    headerScratchpadSize (scratchpadFile hi pad) = pad.length * 4 := by
  have hlen : (bytesOfPod 32 hi.id.toNat ++ (bytesOfPod 8 hi.height.toNat ++
      List.replicate 480 (0 : UInt8))).length = 520 := by
    simp only [List.length_append, bytesOfPod_length, List.length_replicate]
  have hsize := bytesOfPod_length 8 (UInt64.ofNat pad.length * 4).toNat
  unfold headerScratchpadSize scratchpadFile scratchpadFileHeader
  rw [← List.append_assoc (bytesOfPod 8 hi.height.toNat), ← List.append_assoc (bytesOfPod 32 _),
    List.append_assoc, List.drop_left' hlen, List.take_left' hsize,
    podOfBytes_bytesOfPod (UInt64.toNat_lt _), UInt64.toNat_mul, UInt64.toNat_ofNat']
  have hfour : (4 : UInt64).toNat = 4 := rfl
  rw [hfour]
  omega

/-- A file that is not too old is read back as it was written. -/
theorem load_scratchpadFile {path : Blob} {fileTime now : Int} (hpath : path.length ≠ 0)
    (hfresh : now - fileTime ≤ 60 * 60 * 24 * 3) (hi : HeightInfo) {pad : List Hash}
    (hfits : pad.length * 32 < 2 ^ 64) :
    loadScratchpadFromFile path (some (fileTime, scratchpadFile hi pad)) now =
      some (true, ⟨[], hi, pad⟩) := by
  have hheader := scratchpadFileHeader_length hi (UInt64.ofNat pad.length * 4)
  have hlen : (scratchpadFile hi pad).length = scratchpadHeaderSize + pad.length * 32 := by
    unfold scratchpadFile
    rw [List.length_append, hheader, flatMap_bytesOfPod_length]
  have hdrop : (scratchpadFile hi pad).drop scratchpadHeaderSize =
      pad.flatMap fun h => bytesOfPod 32 h.toNat := List.drop_left' hheader
  have hbytes : pad.length * 4 * 8 % 2 ^ 64 = scratchpadHeaderSize + pad.length * 32 -
      scratchpadHeaderSize := by
    rw [Nat.add_sub_cancel_left, Nat.mod_eq_of_lt (by omega)]
    omega
  unfold loadScratchpadFromFile
  simp only
  rw [if_neg hpath, if_neg (by omega), hlen, if_neg (by omega),
    headerScratchpadSize_scratchpadFile hi hfits, hbytes, if_neg (by omega), if_neg (by omega),
    headerHi_scratchpadFile, hdrop, Nat.mul_div_cancel _ (by decide), hashesOf_flatMap]

/-- The states of a running miner: a file is loaded, addenda are applied, whatever they
are. -/
inductive Reached : SimpleMiner → Prop where
  | reset : Reached resetScratchpad
  | load {path : Blob} {file : Option (Int × Blob)} {now : Int} {r : Bool} {m : SimpleMiner}
      (h : loadScratchpadFromFile path file now = some (r, m)) : Reached m
  | apply {m m' : SimpleMiner} {addms : List Addendum} {r : Bool} (hm : Reached m)
      (h : m.applyAddendums addms = .ok (r, m')) : Reached m'

theorem loadScratchpadFromFile_addendums {path : Blob} {file : Option (Int × Blob)} {now : Int}
    {r : Bool} {m : SimpleMiner} (h : loadScratchpadFromFile path file now = some (r, m)) :
    m.mBlocksAddendums = [] := by
  unfold loadScratchpadFromFile at h
  repeat' split at h
  all_goals first | cases h; rfl | cases h

theorem pushAddendum_addendums (m : SimpleMiner) (add : Addendum) :
    (m.pushAddendum add).mBlocksAddendums = m.mBlocksAddendums := rfl

theorem foldl_pushAddendum_addendums (m : SimpleMiner) (addms : List Addendum) :
    (addms.foldl pushAddendum m).mBlocksAddendums = m.mBlocksAddendums := by
  induction addms generalizing m with
  | nil => rfl
  | cons a rest ih => exact (ih _).trans (pushAddendum_addendums m a)

theorem unpatch_nil {m : SimpleMiner} (h : m.mBlocksAddendums = []) (pid : Hash) :
    m.unpatch pid = .ok (false, m) := by
  unfold unpatch
  rw [h]
  rfl

/-- The miner never has anything recorded. -/
theorem Reached.addendums_nil {m : SimpleMiner} (hm : Reached m) : m.mBlocksAddendums = [] := by
  induction hm with
  | reset => rfl
  | load h => exact loadScratchpadFromFile_addendums h
  | @apply m m' addms r _ h ih =>
    unfold applyAddendums at h
    split at h
    next first last _ _ =>
      split at h
      · rw [unpatch_nil ih] at h
        cases h
        exact ih
      · cases h
        exact (foldl_pushAddendum_addendums m addms).trans ih
    next =>
      cases h
      exact ih

end SimpleMiner

end DarknetSpace
