import DarknetSpace.Format.Blobsize
import DarknetSpace.Format.Extra
import DarknetSpace.Format.Varint

/-!
# The binary archive (`binary_archive.h`, `currency_basic.h`)

The serialisers of transactions, blocks and the entries of the block file, each
in the order in which its `BEGIN_SERIALIZE` block names the fields. One codec
stands for the saving and the loading archive: `encode` is
`t_serializable_object_to_blob`, `decode` is `::serialization::serialize` on a
loading archive, with its check that nothing is left over.

A blob is refused when it ends inside a POD, when a count exceeds the bytes
that are left, on an unknown tag and on a version from the future. What
`read_varint` reports is not among the reasons: see `varint`.
-/

namespace DarknetSpace

/-- `CURRENT_BLOCK_MAJOR_VERSION` -/
def currentBlockMajorVersion : Nat := 1

/-! ## Raw bytes -/

/-- `n` bytes are `n` bytes. -/
theorem bytesOfPod_length (n v : Nat) : (bytesOfPod n v).length = n := by
  induction n generalizing v with
  | zero => rfl
  | succ n ih =>
    unfold bytesOfPod
    rw [List.length_cons, ih]

/-- A number is read back from its bytes, if there are enough of them. -/
theorem podOfBytes_bytesOfPod {n v : Nat} (h : v < 256 ^ n) : podOfBytes (bytesOfPod n v) = v := by
  induction n generalizing v with
  | zero =>
    rw [Nat.pow_zero] at h
    show 0 = v
    omega
  | succ n ih =>
    have hdiv : v / 256 < 256 ^ n := by
      rw [Nat.pow_succ] at h
      omega
    unfold bytesOfPod podOfBytes
    rw [ih hdiv, UInt8.toNat_ofNat']
    omega

/-- Bytes are those of the number they make. -/
theorem bytesOfPod_podOfBytes (bs : Blob) : bytesOfPod bs.length (podOfBytes bs) = bs := by
  induction bs with
  | nil => rfl
  | cons b bs ih =>
    have hb : b.toNat < 256 := b.toNat_lt
    have hdiv : (b.toNat + 256 * podOfBytes bs) / 256 = podOfBytes bs := by omega
    have hlow : UInt8.ofNat (b.toNat + 256 * podOfBytes bs) = b := by
      rw [← UInt8.toNat_inj, UInt8.toNat_ofNat']
      omega
    rw [List.length_cons]
    unfold podOfBytes bytesOfPod
    rw [hlow, hdiv, ih]

/-- So many bytes make a number below that power of 256. -/
theorem podOfBytes_lt (bs : Blob) : podOfBytes bs < 256 ^ bs.length := by
  induction bs with
  | nil => exact Nat.one_pos
  | cons b bs ih =>
    have hb : b.toNat < 256 := b.toNat_lt
    unfold podOfBytes
    rw [List.length_cons, Nat.pow_succ]
    omega

/-- `serialize_blob` and `serialize_int`: the `n` bytes of a POD. -/
def pod (n : Nat) : Codec Nat where
  write v := ⟨bytesOfPod n v, v < 256 ^ n⟩
  read _ s := if s.length < n then none else some (podOfBytes (s.take n), s.drop n)
  read_write _ v rest h := by
    have hlen := bytesOfPod_length n v
    have hv : v < 256 ^ n := of_decide_eq_true h
    have hfit : ¬(bytesOfPod n v ++ rest).length < n := by
      rw [List.length_append]
      omega
    rw [if_neg hfit, List.take_left' hlen, List.drop_left' hlen, podOfBytes_bytesOfPod hv]
  ok_of_read _ s v rest h := by
    split at h
    · cases h
    · next hlen =>
      cases h
      have := podOfBytes_lt (s.take n)
      rw [List.length_take_of_le (by omega)] at this
      exact decide_eq_true this
  write_read s v rest h := by
    split at h
    · cases h
    · next hlen =>
      cases h
      have := bytesOfPod_podOfBytes (s.take n)
      rw [List.length_take_of_le (by omega)] at this
      show s = bytesOfPod n (podOfBytes (s.take n)) ++ s.drop n
      rw [this, List.take_append_drop]
  loosen _ _ h := h

theorem pod_pos {n : Nat} (hn : 0 < n) (v : Nat) : 0 < ((pod n).write v).bytes.length := by
  show 0 < (bytesOfPod n v).length
  rw [bytesOfPod_length]
  exact hn

namespace Archive

/-- A POD of `w = 8 n` bits. -/
def bits (w n : Nat) (hw : w = 8 * n) : Codec (BitVec w) :=
  (pod n).iso (BitVec.ofNat w) BitVec.toNat
    (fun v => by rw [BitVec.ofNat_toNat, BitVec.setWidth_eq])
    (fun v h => by
      have hv : v < 256 ^ n := of_decide_eq_true h
      rw [BitVec.toNat_ofNat, hw, Nat.pow_mul]
      exact Nat.mod_eq_of_lt hv)

/-- `crypto::hash`, `crypto::public_key` and `crypto::key_image`. -/
def hash : Codec Hash := bits 256 32 rfl

/-- A signature is 64 bytes. -/
def signature : Codec Signature := bits 512 64 rfl

/-- A `uint64_t` under `FIELD`: eight bytes. -/
def uint64 : Codec UInt64 :=
  (pod 8).iso UInt64.ofNat UInt64.toNat (fun _ => UInt64.ofNat_toNat)
    (fun _ h => UInt64.toNat_ofNat_of_lt' (of_decide_eq_true h))

/-- A `uint64_t` or `size_t` under `VARINT_FIELD`. -/
def varint64 : Codec UInt64 :=
  (varint 64 (Nat.le_refl 64)).iso UInt64.ofNat UInt64.toNat (fun _ => UInt64.ofNat_toNat)
    (fun _ h => UInt64.toNat_ofNat_of_lt' (of_decide_eq_true h))

/-- A `uint8_t` under `VARINT_FIELD`. -/
def varint8 : Codec UInt8 :=
  (varint 8 (by omega)).iso UInt8.ofNat UInt8.toNat (fun _ => UInt8.ofNat_toNat)
    (fun _ h => UInt8.toNat_ofNat_of_lt' (of_decide_eq_true h))

/-- `do_serialize` of a `std::vector`: its size, then its elements. -/
def vec {α : Type} (A : Codec α) (hpos : ∀ x, 0 < (A.write x).bytes.length) : Codec (List α) :=
  Codec.vector (varint 64 (Nat.le_refl 64)) A hpos

theorem hash_pos (h : Hash) : 0 < (hash.write h).bytes.length := pod_pos (by omega) _

theorem varint64_pos (v : UInt64) : 0 < (varint64.write v).bytes.length :=
  varint_pos (Nat.le_refl 64) v.toNat

theorem vec_pos {α : Type} {A : Codec α} {hpos : ∀ x, 0 < (A.write x).bytes.length}
    (xs : List α) : 0 < ((vec A hpos).write xs).bytes.length :=
  Codec.vector_pos (varint_pos (Nat.le_refl 64)) xs

/-- `std::vector<uint8_t>`. -/
def bytes : Codec Blob := vec Codec.byte (fun _ => Nat.one_pos)

/-- `std::vector<uint64_t>`; `serialize_vector_element` makes its elements varints. -/
def varints : Codec (List UInt64) := vec varint64 varint64_pos

/-- A vector of hashes. -/
def hashes : Codec (List Hash) := vec hash hash_pos

/-! ## Inputs and outputs -/

/-- `txout_to_script`. -/
def script : Codec (List PublicKey × Blob) := hashes.seq bytes

/-- `txout_target_v`, by its tags. -/
def txoutTarget : Codec TxoutTarget :=
  (Codec.variant
    (.orElse 0x00 script
      (.orElse 0x01 hash
        (.last 0x02 (hash.seq Codec.byte))
        (fun _ => show (0x02 : UInt8) ≠ 0x01 by decide))
      (fun
        | .inl _ => show (0x01 : UInt8) ≠ 0x00 by decide
        | .inr _ => show (0x02 : UInt8) ≠ 0x00 by decide))).iso
    (fun
      | .inl (keys, script) => .toScript keys script
      | .inr (.inl hash) => .toScripthash hash
      | .inr (.inr (key, mixAttr)) => .toKey key mixAttr)
    (fun
      | .toScript keys script => .inl (keys, script)
      | .toScripthash hash => .inr (.inl hash)
      | .toKey key mixAttr => .inr (.inr (key, mixAttr)))
    (fun t => by cases t <;> rfl)
    (fun x _ => by rcases x with x | x | x <;> rfl)

/-- `txin_v`, by its tags. -/
def txin : Codec Txin :=
  (Codec.variant
    (.orElse 0xff varint64
      (.orElse 0x00 (hash.seq (varint64.seq bytes))
        (.orElse 0x01 (hash.seq (varint64.seq (script.seq bytes)))
          (.last 0x02 (varint64.seq (varints.seq hash)))
          (fun _ => show (0x02 : UInt8) ≠ 0x01 by decide))
        (fun
          | .inl _ => show (0x01 : UInt8) ≠ 0x00 by decide
          | .inr _ => show (0x02 : UInt8) ≠ 0x00 by decide))
      (fun
        | .inl _ => show (0x00 : UInt8) ≠ 0xff by decide
        | .inr (.inl _) => show (0x01 : UInt8) ≠ 0xff by decide
        | .inr (.inr _) => show (0x02 : UInt8) ≠ 0xff by decide))).iso
    (fun
      | .inl height => .gen height
      | .inr (.inl (prev, prevout, sigset)) => .toScript prev prevout sigset
      | .inr (.inr (.inl (prev, prevout, (keys, script), sigset))) =>
        .toScripthash prev prevout keys script sigset
      | .inr (.inr (.inr (amount, keyOffsets, kImage))) => .toKey amount keyOffsets kImage)
    (fun
      | .gen height => .inl height
      | .toScript prev prevout sigset => .inr (.inl (prev, prevout, sigset))
      | .toScripthash prev prevout keys script sigset =>
        .inr (.inr (.inl (prev, prevout, (keys, script), sigset)))
      | .toKey amount keyOffsets kImage => .inr (.inr (.inr (amount, keyOffsets, kImage))))
    (fun i => by cases i <;> rfl)
    (fun x _ => by rcases x with x | x | x | x <;> rfl)

/-- `tx_out`. -/
def txOut : Codec TxOut :=
  (varint64.seq txoutTarget).iso (fun x => ⟨x.1, x.2⟩) (fun o => (o.amount, o.target))
    (fun _ => rfl) (fun _ _ => rfl)

theorem txin_pos (i : Txin) : 0 < (txin.write i).bytes.length := Codec.variant_pos _ _

theorem txOut_pos (o : TxOut) : 0 < (txOut.write o).bytes.length :=
  Codec.seq_pos varint64_pos _

/-! ## Transactions and blocks -/

/-- `version`, which both archives hold against the current one. -/
def version : Codec UInt64 :=
  varint64.guarded fun v => !decide (currentTransactionVersion < v.toNat)

/-- `transaction_prefix`. -/
def transactionPrefix : Codec TransactionPrefix :=
  (version.seq (varint64.seq ((vec txin txin_pos).seq ((vec txOut txOut_pos).seq bytes)))).iso
    (fun (version, unlockTime, vin, vout, extra) => ⟨version, unlockTime, vin, vout, extra⟩)
    (fun tx => (tx.version, tx.unlockTime, tx.vin, tx.vout, tx.extra))
    (fun _ => rfl) (fun _ _ => rfl)

/-- `ring_signature`. -/
def ringSignature : Codec (List Signature) := vec signature (fun _ => pod_pos (by omega) _)

/-- `transaction`: the prefix, and as many signatures as its inputs ask for. -/
def transaction : Codec Transaction :=
  (transactionPrefix.seq (vec ringSignature vec_pos)).iso
    (fun (tx, signatures) => { tx with signatures })
    (fun tx => (tx.toTransactionPrefix, tx.signatures))
    (fun _ => rfl) (fun _ _ => rfl)

/-- `block_header`. -/
def blockHeader : Codec BlockHeader :=
  ((Codec.byte.guarded fun v => !decide (currentBlockMajorVersion < v.toNat)).seq
    (uint64.seq (hash.seq (varint8.seq (varint64.seq Codec.byte))))).iso
    (fun (majorVersion, nonce, prevId, minorVersion, timestamp, flags) =>
      { majorVersion, nonce, prevId, minorVersion, timestamp, flags })
    (fun h => (h.majorVersion, h.nonce, h.prevId, h.minorVersion, h.timestamp, h.flags))
    (fun _ => rfl) (fun _ _ => rfl)

/-- `block`: the header, the coinbase and the ids of the other transactions. -/
def block : Codec Block :=
  (blockHeader.seq (transaction.seq hashes)).iso
    (fun (h, minerTx, txHashes) => { h with minerTx, txHashes })
    (fun b => (b.toBlockHeader, b.minerTx, b.txHashes))
    (fun _ => rfl) (fun _ _ => rfl)

/-! ## Entries of the block file -/

/-- A 128-bit number of two halves (`uint128_n2b`). -/
def uint128N2b (upper lower : UInt64) : BitVec 128 :=
  (upper.toBitVec.setWidth 128 <<< 64) + lower.toBitVec.setWidth 128

/-- The two halves (`uint128_b2n`). -/
def uint128B2n (b : BitVec 128) : UInt64 × UInt64 :=
  (⟨(b >>> 64).setWidth 64⟩, ⟨((b <<< 64) >>> 64).setWidth 64⟩)

/-- Two words make the number they are the halves of. -/
theorem uint128N2b_toNat (upper lower : UInt64) :
    (uint128N2b upper lower).toNat = upper.toNat * 2 ^ 64 + lower.toNat := by
  have hu := upper.toNat_lt
  have hl := lower.toNat_lt
  unfold uint128N2b
  simp only [BitVec.toNat_add, BitVec.toNat_shiftLeft, BitVec.toNat_setWidth, Nat.shiftLeft_eq,
    UInt64.toNat_toBitVec]
  omega

/-- The halves are put together again, -/
theorem uint128N2b_uint128B2n (b : BitVec 128) :
    uint128N2b (uint128B2n b).1 (uint128B2n b).2 = b := by
  have hb := b.isLt
  apply BitVec.eq_of_toNat_eq
  rw [uint128N2b_toNat]
  unfold uint128B2n
  simp only [UInt64.toNat, BitVec.toNat_shiftLeft, BitVec.toNat_ushiftRight,
    BitVec.toNat_setWidth, Nat.shiftLeft_eq, Nat.shiftRight_eq_div_pow]
  omega

/-- and taken apart again. -/
theorem uint128B2n_uint128N2b (upper lower : UInt64) :
    uint128B2n (uint128N2b upper lower) = (upper, lower) := by
  have hu := upper.toNat_lt
  have hl := lower.toNat_lt
  have h := uint128N2b_toNat upper lower
  unfold uint128B2n
  refine Prod.ext ?_ ?_
  · rw [← UInt64.toNat_inj]
    simp only [UInt64.toNat, BitVec.toNat_ushiftRight, BitVec.toNat_setWidth,
      Nat.shiftRight_eq_div_pow, h] at *
    omega
  · rw [← UInt64.toNat_inj]
    simp only [UInt64.toNat, BitVec.toNat_shiftLeft, BitVec.toNat_ushiftRight,
      BitVec.toNat_setWidth, Nat.shiftLeft_eq, Nat.shiftRight_eq_div_pow, h] at *
    omega

/-- `VARINT_UINT128T`: the upper half, then the lower one. -/
def uint128 : Codec (BitVec 128) :=
  (varint64.seq varint64).iso (fun x => uint128N2b x.1 x.2) uint128B2n uint128N2b_uint128B2n
    (fun x _ => uint128B2n_uint128N2b x.1 x.2)

/-- `transaction_chain_entry` with its fields in their width. -/
structure TransactionChainEntry where
  tx : Transaction
  mKeeperBlockHeight : UInt64
  mGlobalOutputIndexes : List UInt64
  mSpentFlags : List UInt8
  deriving DecidableEq

/-- `BlockEntry`, with the fields of `block_extended_info` in their width. -/
structure StoredBlockEntry where
  bl : Block
  height : UInt64
  blockCumulativeSize : UInt64
  cumulativeDifficulty : BitVec 128
  alreadyGeneratedCoins : UInt64
  alreadyDonatedCoins : UInt64
  scratchOffset : UInt64
  transactions : List TransactionChainEntry
  deriving DecidableEq

/-- `transaction_chain_entry` -/
def transactionChainEntry : Codec TransactionChainEntry :=
  (transaction.seq (varint64.seq (varints.seq bytes))).iso
    (fun (tx, mKeeperBlockHeight, mGlobalOutputIndexes, mSpentFlags) =>
      { tx, mKeeperBlockHeight, mGlobalOutputIndexes, mSpentFlags })
    (fun e => (e.tx, e.mKeeperBlockHeight, e.mGlobalOutputIndexes, e.mSpentFlags))
    (fun _ => rfl) (fun _ _ => rfl)

theorem version_pos (v : UInt64) : 0 < (version.write v).bytes.length := varint64_pos v

theorem transactionPrefix_pos (tx : TransactionPrefix) :
    0 < (transactionPrefix.write tx).bytes.length := Codec.seq_pos version_pos _

theorem transaction_pos (tx : Transaction) : 0 < (transaction.write tx).bytes.length :=
  Codec.seq_pos transactionPrefix_pos _

theorem transactionChainEntry_pos (e : TransactionChainEntry) :
    0 < (transactionChainEntry.write e).bytes.length := Codec.seq_pos transaction_pos _

/-- `block_extended_info` -/
def blockEntry : Codec StoredBlockEntry :=
  (block.seq (varint64.seq (varint64.seq (uint128.seq (varint64.seq (varint64.seq (varint64.seq
    (vec transactionChainEntry transactionChainEntry_pos)))))))).iso
    (fun (bl, height, blockCumulativeSize, cumulativeDifficulty, alreadyGeneratedCoins,
        alreadyDonatedCoins, scratchOffset, transactions) =>
      { bl, height, blockCumulativeSize, cumulativeDifficulty, alreadyGeneratedCoins,
        alreadyDonatedCoins, scratchOffset, transactions })
    (fun e => (e.bl, e.height, e.blockCumulativeSize, e.cumulativeDifficulty,
      e.alreadyGeneratedCoins, e.alreadyDonatedCoins, e.scratchOffset, e.transactions))
    (fun _ => rfl) (fun _ _ => rfl)

end Archive

/-- `tx_to_blob`. -/
def txToBlob (tx : Transaction) : Blob := Archive.transaction.encode tx

/-- `parse_and_validate_tx_from_blob`. -/
def parseAndValidateTxFromBlob (txBlob : Blob) : Option Transaction :=
  Archive.transaction.decode txBlob

/-- `block_to_blob`. -/
def blockToBlob (b : Block) : Blob := Archive.block.encode b

/-- `parse_and_validate_block_from_blob`. -/
def parseAndValidateBlockFromBlob (bBlob : Blob) : Option Block := Archive.block.decode bBlob

end DarknetSpace
