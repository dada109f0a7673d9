import DarknetSpace.Format.Archive

/-!
# Blobs and what they stand for

Parsing undoes serialising: a transaction, a block or an entry of the block file
that the archive writes to its end is read back as it was. The archive gives up
on a version from the future, of the block itself or of a transaction in it.

The other way round the parser is more generous than the writer. A varint that
`read_varint` objects to (cut off by the end of the blob, too large, or with a
zero as its last group) is read all the same, so an accepted blob is the blob of
what was parsed exactly when `read_varint` had nothing to object to.

Main results: `parse_undoes_serialise` and `parsed_blob_canonical_iff`, for
transactions, blocks and entries of the block file at once. Both are the laws of
`Lib/Codec` at the codecs of `Archive`; what is added is that nothing else is left over,
and that counts fit a vector.
-/

namespace DarknetSpace

/-! ## What a `std::vector` can hold -/

/-- As many elements as a `size_t` counts. -/
def FitsVector {α : Type} (xs : List α) : Prop := xs.length < 2 ^ 64

/-- The vectors of an output target can exist. -/
def TxoutTarget.Sized : TxoutTarget → Prop
  | .toScript keys script => FitsVector keys ∧ FitsVector script
  | .toScripthash _ => True
  | .toKey _ _ => True

/-- The vectors of an input can exist. -/
def Txin.Sized : Txin → Prop
  | .gen _ => True
  | .toScript _ _ sigset => FitsVector sigset
  | .toScripthash _ _ keys script sigset => (FitsVector keys ∧ FitsVector script) ∧ FitsVector sigset
  | .toKey _ keyOffsets _ => FitsVector keyOffsets

/-- The vectors of a transaction prefix can exist. -/
structure TransactionPrefix.Sized (tx : TransactionPrefix) : Prop where
  vin : FitsVector tx.vin
  vout : FitsVector tx.vout
  extra : FitsVector tx.extra
  input : ∀ i ∈ tx.vin, i.Sized
  output : ∀ o ∈ tx.vout, o.target.Sized

/-- The vectors of a transaction can exist. -/
structure Transaction.Sized (tx : Transaction) : Prop extends tx.toTransactionPrefix.Sized where
  signatures : FitsVector tx.signatures
  ring : ∀ sigs ∈ tx.signatures, FitsVector sigs

/-- The vectors of a block can exist. -/
structure Block.Sized (b : Block) : Prop where
  minerTx : b.minerTx.Sized
  txHashes : FitsVector b.txHashes

/-- The version is one that both archives know. -/
def Transaction.Current (tx : Transaction) : Prop :=
  tx.version.toNat ≤ currentTransactionVersion

def Block.Current (b : Block) : Prop :=
  b.majorVersion.toNat ≤ currentBlockMajorVersion

namespace Archive

/-- The vectors of a transaction entry can exist. -/
structure TransactionChainEntry.Sized (e : TransactionChainEntry) : Prop where
  tx : e.tx.Sized
  mGlobalOutputIndexes : FitsVector e.mGlobalOutputIndexes
  mSpentFlags : FitsVector e.mSpentFlags

/-- The vectors of a block entry can exist. -/
structure StoredBlockEntry.Sized (e : StoredBlockEntry) : Prop where
  bl : e.bl.Sized
  transactions : FitsVector e.transactions
  entry : ∀ t ∈ e.transactions, t.Sized

/-! ## Writing to the end -/

/-- A vector of elements that can be written. -/
theorem vec_ok {α : Type} {A : Codec α} {hpos : ∀ x, 0 < (A.write x).bytes.length} {xs : List α}
    (hsize : FitsVector xs) (h : ∀ x ∈ xs, (A.write x).ok = true) :
    ((vec A hpos).write xs).ok = true :=
  Codec.vector_ok.2 ⟨decide_eq_true hsize, h⟩

/-- A POD can always be written. -/
theorem bits_ok {w n : Nat} (hw : w = 8 * n) (v : BitVec w) :
    ((bits w n hw).write v).ok = true := by
  have hpow : 2 ^ w = 256 ^ n := by rw [hw, Nat.pow_mul]
  have hv : v.toNat < 2 ^ w := v.isLt
  rw [hpow] at hv
  exact decide_eq_true hv

theorem hash_ok (v : Hash) : (hash.write v).ok = true :=
  bits_ok (w := 256) (n := 32) rfl v

theorem signature_ok (v : Signature) : (signature.write v).ok = true :=
  bits_ok (w := 512) (n := 64) rfl v

theorem varint64_ok (v : UInt64) : (varint64.write v).ok = true := decide_eq_true v.toNat_lt

theorem varint8_ok (v : UInt8) : (varint8.write v).ok = true := decide_eq_true v.toNat_lt

theorem uint64_ok (v : UInt64) : (uint64.write v).ok = true := decide_eq_true v.toNat_lt

theorem bytes_ok {b : Blob} (h : FitsVector b) : (bytes.write b).ok = true :=
  vec_ok h (fun _ _ => rfl)

theorem varints_ok {vs : List UInt64} (h : FitsVector vs) : (varints.write vs).ok = true :=
  vec_ok h (fun v _ => varint64_ok v)

theorem hashes_ok {hs : List Hash} (h : FitsVector hs) : (hashes.write hs).ok = true :=
  vec_ok h (fun v _ => hash_ok v)

/-- A vector of hashes that can be written can exist. -/
theorem hashes_fits {hs : List Hash} (h : (hashes.write hs).ok = true) : FitsVector hs := by
  have hvec : ((Codec.vector (varint 64 (Nat.le_refl 64)) hash hash_pos).write hs).ok = true := h
  have hsize : hs.length < 2 ^ 64 := of_decide_eq_true (Codec.vector_ok.1 hvec).1
  exact hsize

theorem script_ok {s : List PublicKey × Blob} (hkeys : FitsVector s.1) (hscript : FitsVector s.2) :
    (script.write s).ok = true :=
  Codec.seq_ok.2 ⟨hashes_ok hkeys, bytes_ok hscript⟩

/-- An output target of any kind. -/
theorem txoutTarget_ok {t : TxoutTarget} (h : t.Sized) : (txoutTarget.write t).ok = true := by
  cases t with
  | toScript keys s => exact script_ok h.1 h.2
  | toScripthash v => exact hash_ok v
  | toKey key mix => exact Codec.seq_ok.2 ⟨hash_ok key, rfl⟩

/-- An input of any kind. -/
theorem txin_ok {i : Txin} (h : i.Sized) : (txin.write i).ok = true := by
  cases i with
  | gen height => exact varint64_ok height
  | toScript prev prevout sigset =>
    exact Codec.seq_ok.2 ⟨hash_ok prev, Codec.seq_ok.2 ⟨varint64_ok prevout, bytes_ok h⟩⟩
  | toScripthash prev prevout keys s sigset =>
    have hscript : (script.write (keys, s)).ok = true := script_ok h.1.1 h.1.2
    exact Codec.seq_ok.2 ⟨hash_ok prev, Codec.seq_ok.2 ⟨varint64_ok prevout,
      Codec.seq_ok.2 ⟨hscript, bytes_ok h.2⟩⟩⟩
  | toKey amount keyOffsets kImage =>
    exact Codec.seq_ok.2 ⟨varint64_ok amount, Codec.seq_ok.2 ⟨varints_ok h, hash_ok kImage⟩⟩

theorem txOut_ok {o : TxOut} (h : o.target.Sized) : (txOut.write o).ok = true :=
  Codec.seq_ok.2 ⟨varint64_ok o.amount, txoutTarget_ok h⟩

/-- The version guard lets the current version and older ones through. -/
theorem version_ok {v : UInt64} :
    (version.write v).ok = true ↔ v.toNat ≤ currentTransactionVersion := by
  unfold version
  rw [Codec.guarded_ok]
  simp [varint64_ok]

/-- A transaction prefix of a current version. -/
theorem transactionPrefix_ok {tx : TransactionPrefix}
    (hversion : tx.version.toNat ≤ currentTransactionVersion) (h : tx.Sized) :
    (transactionPrefix.write tx).ok = true := by
  have hvin : ((vec txin txin_pos).write tx.vin).ok = true :=
    vec_ok h.vin (fun i hi => txin_ok (h.input i hi))
  have hvout : ((vec txOut txOut_pos).write tx.vout).ok = true :=
    vec_ok h.vout (fun o ho => txOut_ok (h.output o ho))
  exact Codec.seq_ok.2 ⟨version_ok.2 hversion, Codec.seq_ok.2 ⟨varint64_ok _,
    Codec.seq_ok.2 ⟨hvin, Codec.seq_ok.2 ⟨hvout, bytes_ok h.extra⟩⟩⟩⟩

/-- A transaction of a current version. -/
theorem transaction_ok {tx : Transaction} (hcurrent : tx.Current) (h : tx.Sized) :
    (transaction.write tx).ok = true :=
  Codec.seq_ok.2 ⟨transactionPrefix_ok hcurrent h.toSized,
    vec_ok h.signatures (fun sigs hsigs => vec_ok (h.ring sigs hsigs) (fun sig _ => signature_ok sig))⟩

/-- A block header of a current version. -/
theorem blockHeader_ok {h : BlockHeader} (hversion : h.majorVersion.toNat ≤ currentBlockMajorVersion) :
    (blockHeader.write h).ok = true := by
  have hmajor : ((Codec.byte.guarded fun v =>
      !decide (currentBlockMajorVersion < v.toNat)).write h.majorVersion).ok = true := by
    rw [Codec.guarded_ok]
    exact ⟨rfl, by simpa using hversion⟩
  exact Codec.seq_ok.2 ⟨hmajor, Codec.seq_ok.2 ⟨uint64_ok _, Codec.seq_ok.2 ⟨hash_ok _,
    Codec.seq_ok.2 ⟨varint8_ok _, Codec.seq_ok.2 ⟨varint64_ok _, rfl⟩⟩⟩⟩⟩

/-- A block, its coinbase being current too. -/
theorem block_ok {b : Block} (hcurrent : b.Current) (hminer : b.minerTx.Current) (h : b.Sized) :
    (block.write b).ok = true :=
  Codec.seq_ok.2 ⟨blockHeader_ok hcurrent,
    Codec.seq_ok.2 ⟨transaction_ok hminer h.minerTx, hashes_ok h.txHashes⟩⟩

/-- A transaction entry. -/
theorem transactionChainEntry_ok {e : TransactionChainEntry} (hcurrent : e.tx.Current)
    (h : e.Sized) : (transactionChainEntry.write e).ok = true :=
  Codec.seq_ok.2 ⟨transaction_ok hcurrent h.tx, Codec.seq_ok.2 ⟨varint64_ok _,
    Codec.seq_ok.2 ⟨varints_ok h.mGlobalOutputIndexes, bytes_ok h.mSpentFlags⟩⟩⟩

/-- Every version in an entry is one the archives know. -/
structure StoredBlockEntry.Current (e : StoredBlockEntry) : Prop where
  bl : e.bl.Current
  minerTx : e.bl.minerTx.Current
  entry : ∀ t ∈ e.transactions, t.tx.Current

/-- A block entry. -/
theorem blockEntry_ok {e : StoredBlockEntry} (hcurrent : e.Current) (h : e.Sized) :
    (blockEntry.write e).ok = true := by
  have hdifficulty : (uint128.write e.cumulativeDifficulty).ok = true :=
    Codec.seq_ok.2 ⟨varint64_ok _, varint64_ok _⟩
  have htransactions :
      ((vec transactionChainEntry transactionChainEntry_pos).write e.transactions).ok = true :=
    vec_ok h.transactions
      (fun t ht => transactionChainEntry_ok (hcurrent.entry t ht) (h.entry t ht))
  exact Codec.seq_ok.2 ⟨block_ok hcurrent.bl hcurrent.minerTx h.bl, Codec.seq_ok.2 ⟨varint64_ok _,
    Codec.seq_ok.2 ⟨varint64_ok _, Codec.seq_ok.2 ⟨hdifficulty, Codec.seq_ok.2 ⟨varint64_ok _,
      Codec.seq_ok.2 ⟨varint64_ok _, Codec.seq_ok.2 ⟨varint64_ok _, htransactions⟩⟩⟩⟩⟩⟩⟩

end Archive

/-! ## Decoding undoes encoding -/

/-- `dump_binary` and `parse_binary` of a block entry, as the block file uses them. -/
def blockEntryToBlob (e : Archive.StoredBlockEntry) : Blob := Archive.blockEntry.encode e

/-- The way back: the entry whose blob this is, to its end. -/
def blockEntryFromBlob (s : Blob) : Option Archive.StoredBlockEntry := Archive.blockEntry.decode s

/-- **Parsing undoes serialising**, of transactions, blocks and entries of the block
file, as long as every version in them is one that the archives know. -/
theorem parse_undoes_serialise :
    (∀ tx : Transaction, tx.Current → tx.Sized →
      parseAndValidateTxFromBlob (txToBlob tx) = some tx) ∧
    (∀ b : Block, b.Current → b.minerTx.Current → b.Sized →
      parseAndValidateBlockFromBlob (blockToBlob b) = some b) ∧
    (∀ e : Archive.StoredBlockEntry, e.Current → e.Sized →
      blockEntryFromBlob (blockEntryToBlob e) = some e) := by
  refine ⟨?_, ?_, ?_⟩
  · intro tx hcurrent hsized
    exact Codec.decode_encode _ (Archive.transaction_ok hcurrent hsized)
  · intro b hcurrent hminer hsized
    exact Codec.decode_encode _ (Archive.block_ok hcurrent hminer hsized)
  · intro e hcurrent hsized
    exact Codec.decode_encode _ (Archive.blockEntry_ok hcurrent hsized)

/-- A transaction with an input and an output of each kind. -/
def mixedTx : Transaction where
  version := 1
  unlockTime := 300
  vin := [.gen 7, .toScript 9 1 [1, 2], .toScripthash 5 0 [3, 4] [5] [6],
    .toKey 1000 [3, 200] 11]
  vout := [⟨1, .toScript [1, 2] [7]⟩, ⟨200, .toScripthash 8⟩, ⟨70000, .toKey 9 1⟩]
  extra := [1, 0]
  signatures := [[], [], [], [12, 13]]

/-- A block around it, with the ids of two more. -/
def mixedBlock : Block where
  majorVersion := 1
  minorVersion := 0
  timestamp := 1400000000
  prevId := 17
  nonce := 5
  flags := 1
  minerTx := mixedTx
  txHashes := [21, 22]

/-- The entry of that block. -/
def mixedBlockEntry : Archive.StoredBlockEntry where
  bl := mixedBlock
  height := 0xffffffffffffffff
  blockCumulativeSize := 0
  cumulativeDifficulty := 2 ^ 64 + 1
  alreadyGeneratedCoins := 128
  alreadyDonatedCoins := 0
  scratchOffset := 0
  transactions := [⟨mixedTx, 0, [0, 300], [1, 0]⟩, ⟨mixedTx, 7, [], []⟩]

theorem mixedTx_sized : mixedTx.Sized := by
  refine ⟨⟨?_, ?_, ?_, ?_, ?_⟩, ?_, ?_⟩
  all_goals simp [mixedTx, FitsVector, Txin.Sized, TxoutTarget.Sized]

theorem parse_undoes_serialise_mixed :
    parseAndValidateTxFromBlob (txToBlob mixedTx) = some mixedTx ∧
    parseAndValidateBlockFromBlob (blockToBlob mixedBlock) = some mixedBlock ∧
    blockEntryFromBlob (blockEntryToBlob mixedBlockEntry) = some mixedBlockEntry := by
  have hminer : mixedTx.Current := Nat.le_refl 1
  have hblock : mixedBlock.Current := Nat.le_refl 1
  have hsized : mixedBlock.Sized := ⟨mixedTx_sized, by simp [mixedBlock, FitsVector]⟩
  refine ⟨parse_undoes_serialise.1 _ hminer mixedTx_sized,
    parse_undoes_serialise.2.1 _ hblock hminer hsized,
    parse_undoes_serialise.2.2 _ ⟨hblock, hminer, ?_⟩ ⟨hsized, ?_, ?_⟩⟩
  · simp only [mixedBlockEntry, List.forall_mem_cons]
    exact ⟨hminer, hminer, fun t ht => absurd ht List.not_mem_nil⟩
  · simp [mixedBlockEntry, FitsVector]
  · simp only [mixedBlockEntry, List.forall_mem_cons]
    exact ⟨⟨mixedTx_sized, by simp [FitsVector], by simp [FitsVector]⟩,
      ⟨mixedTx_sized, by simp [FitsVector], by simp [FitsVector]⟩,
      fun t ht => absurd ht List.not_mem_nil⟩

/-- A block around one transaction without inputs and outputs. -/
def emptyBlock (version : UInt64) : Block where
  majorVersion := 1
  minorVersion := 0
  timestamp := 0
  prevId := 0
  nonce := 0
  flags := 0
  minerTx := ⟨⟨version, 0, [], [], []⟩, []⟩
  txHashes := []

theorem emptyBlock_sized (version : UInt64) : (emptyBlock version).Sized := by
  refine ⟨⟨⟨?_, ?_, ?_, ?_, ?_⟩, ?_, ?_⟩, ?_⟩
  all_goals simp [emptyBlock, FitsVector]

/-- A coinbase transaction from the future in a block of today: the writer stops
behind its version, and what it wrote cannot be parsed. -/
theorem future_coinbase_lost :
    (emptyBlock 2).Current ∧ (emptyBlock 2).Sized ∧
      parseAndValidateBlockFromBlob (blockToBlob (emptyBlock 2)) ≠ some (emptyBlock 2) :=
  ⟨Nat.le_refl 1, emptyBlock_sized 2, by decide⟩

/-! ## Which blobs are canonical -/

/-- Every varint that parsing reads is whole, fits its width and has no zero as its
last group: the archive gets through in the mode that gives up on one that is cut
off, too large or overlong. The count that `read_varint` returns tells the last two
apart from the rest, but not one that is cut off, whose bytes it counts. -/
def VarintsAccepted {α : Type} (A : Codec α) (s : Blob) : Prop := A.Strict s

/-- **An accepted blob is the blob of what was parsed** exactly when every varint in
it is as the writer would have written it: of transactions and of blocks. -/
theorem parsed_blob_canonical_iff (s : Blob) :
    (∀ tx : Transaction, parseAndValidateTxFromBlob s = some tx →
      (txToBlob tx = s ↔ VarintsAccepted Archive.transaction s)) ∧
    (∀ b : Block, parseAndValidateBlockFromBlob s = some b →
      (blockToBlob b = s ↔ VarintsAccepted Archive.block s)) :=
  ⟨fun _ h => Codec.encode_eq_iff _ h, fun _ h => Codec.encode_eq_iff _ h⟩

/-- The empty transaction, as it is written. -/
def plainBlob : Blob := [0x01, 0x00, 0x00, 0x00, 0x00, 0x00]

/-- The same with a superfluous group in its version. -/
def overlongBlob : Blob := [0x81, 0x00, 0x00, 0x00, 0x00, 0x00, 0x00]

/-- The same without the count of its signatures. -/
def truncatedBlob : Blob := [0x01, 0x00, 0x00, 0x00, 0x00]

/-- The same with an unlock time of 64 bits and more. -/
def overflowingBlob : Blob :=
  [0x01, 0x80, 0x80, 0x80, 0x80, 0x80, 0x80, 0x80, 0x80, 0x80, 0x02, 0x00, 0x00, 0x00, 0x00]

theorem parsed_blob_canonical_plain :
    VarintsAccepted Archive.transaction plainBlob ∧
      ¬VarintsAccepted Archive.transaction overlongBlob := by
  have hplain : parseAndValidateTxFromBlob plainBlob = some (emptyBlock 1).minerTx := by
    decide
  have hoverlong : parseAndValidateTxFromBlob overlongBlob = some (emptyBlock 1).minerTx := by
    decide
  constructor
  · rw [← (parsed_blob_canonical_iff plainBlob).1 _ hplain]
    decide
  · rw [← (parsed_blob_canonical_iff overlongBlob).1 _ hoverlong]
    decide

/-- All three are taken for the empty transaction. -/
theorem loose_blobs_parse :
    (parseAndValidateTxFromBlob overlongBlob = some (emptyBlock 1).minerTx ∧
      parseAndValidateTxFromBlob truncatedBlob = some (emptyBlock 1).minerTx ∧
      parseAndValidateTxFromBlob overflowingBlob = some (emptyBlock 1).minerTx) ∧
    ¬∀ (s : Blob) (tx : Transaction), parseAndValidateTxFromBlob s = some tx → txToBlob tx = s := by
  have hparse : parseAndValidateTxFromBlob overlongBlob = some (emptyBlock 1).minerTx ∧
      parseAndValidateTxFromBlob truncatedBlob = some (emptyBlock 1).minerTx ∧
      parseAndValidateTxFromBlob overflowingBlob = some (emptyBlock 1).minerTx := by
    decide
  refine ⟨hparse, ?_⟩
  intro h
  have hcanonical := h _ _ hparse.1
  revert hcanonical
  decide

end DarknetSpace
