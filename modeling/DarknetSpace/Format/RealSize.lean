import DarknetSpace.Core.Core
import DarknetSpace.Format.RoundTrip

/-!
# Counted sizes and real ones

`get_object_blobsize` does not serialise a transaction. It serialises the prefix
and counts the signatures from the inputs, with a table of its own for the length
of a varint. The table is right up to 56 bits, far beyond any count of inputs or
signatures, so what is counted is what `tx_to_blob` writes.

A version from the future stops the serialiser behind the version. Then the
formula goes on counting where nothing more is written.

`Sized` says of a value that its counts fit what a `std::vector` can hold; each codec
then has a lemma with the length of what it writes. Main result:
`blobsize_is_real_size`.
-/

namespace DarknetSpace

/-! ## The length of what is written -/

theorem writeVarintFrom_length {fuel i : Nat} (h : i < 128 ^ (fuel + 1)) :
    (writeVarintFrom fuel i).length = varintSize i := by
  induction fuel generalizing i with
  | zero =>
    unfold writeVarintFrom varintSize
    rw [if_pos (by omega)]
    rfl
  | succ fuel ih =>
    have hdiv : i / 128 < 128 ^ (fuel + 1) := by
      rw [Nat.div_lt_iff_lt_mul (by omega), ← Nat.pow_succ]
      exact h
    unfold writeVarintFrom varintSize
    by_cases hmore : 128 ≤ i
    · rw [if_pos hmore, if_neg (by omega), List.length_cons, ih hdiv, Nat.add_comm]
    · rw [if_neg hmore, if_pos (by omega)]
      rfl

theorem writeVarint_length {i : Nat} (h : i < 2 ^ 64) : (writeVarint i).length = varintSize i :=
  writeVarintFrom_length (lt_fuel_of_lt_bits (Nat.le_refl 64) h)

/-- The table of `get_varint_packed_size` ends too soon, at 56 bits. -/
theorem getVarintPackedSize_eq {v : Nat} (h : v < 2 ^ 56) : getVarintPackedSize v = varintSize v := by
  have hstep : ∀ w, 128 ≤ w → varintSize w = 1 + varintSize (w / 128) := by
    intro w hw
    conv_lhs => unfold varintSize
    rw [if_neg (by omega)]
  have hone : ∀ w, w < 128 → varintSize w = 1 := by
    intro w hw
    unfold varintSize
    rw [if_pos hw]
  unfold getVarintPackedSize
  -- one division by 128 for each byte but the last
  by_cases h1 : v ≤ 127
  · rw [if_pos h1, hone v (by omega)]
  rw [if_neg h1, hstep v (by omega)]
  by_cases h2 : v ≤ 16383
  · rw [if_pos h2, hone _ (by omega)]
  rw [if_neg h2, hstep _ (by omega)]
  by_cases h3 : v ≤ 2097151
  · rw [if_pos h3, hone _ (by omega)]
  rw [if_neg h3, hstep _ (by omega)]
  by_cases h4 : v ≤ 268435455
  · rw [if_pos h4, hone _ (by omega)]
  rw [if_neg h4, hstep _ (by omega)]
  by_cases h5 : v ≤ 34359738367
  · rw [if_pos h5, hone _ (by omega)]
  rw [if_neg h5, hstep _ (by omega)]
  by_cases h6 : v ≤ 4398046511103
  · rw [if_pos h6, hone _ (by omega)]
  rw [if_neg h6, hstep _ (by omega)]
  by_cases h7 : v ≤ 562949953421311
  · rw [if_pos h7, hone _ (by omega)]
  rw [if_neg h7, hstep _ (by omega), hone _ (by omega)]

namespace Archive

section

variable {α : Type} {A : Codec α}

theorem writeAll_length {xs : List α} (h : ∀ x ∈ xs, (A.write x).ok = true) :
    (A.writeAll xs).bytes.length = (xs.map fun x => (A.encode x).length).sum := by
  induction xs with
  | nil => rfl
  | cons x xs ih =>
    unfold Codec.writeAll
    rw [ByteOutput.andThen_of_ok (h x List.mem_cons_self), List.length_append,
      ih fun y hy => h y (List.mem_cons_of_mem _ hy)]
    rfl

/-- The length of a vector: its count, and its elements. -/
theorem vec_length {hpos : ∀ x, 0 < (A.write x).bytes.length} {xs : List α} (hsize : FitsVector xs)
    (h : ∀ x ∈ xs, (A.write x).ok = true) :
    ((vec A hpos).encode xs).length =
      varintSize xs.length + (xs.map fun x => (A.encode x).length).sum := by
  have hcount : ((varint 64 (Nat.le_refl 64)).write xs.length).ok = true := decide_eq_true hsize
  show (((varint 64 (Nat.le_refl 64)).write xs.length).andThen (A.writeAll xs)).bytes.length = _
  rw [ByteOutput.andThen_of_ok hcount, List.length_append, writeAll_length h]
  show (writeVarint xs.length).length + _ = _
  rw [writeVarint_length hsize]

theorem seq_length {β : Type} {B : Codec β} {a : α} (h : (A.write a).ok = true) (b : β) :
    ((A.seq B).encode (a, b)).length = (A.encode a).length + (B.encode b).length := by
  rw [Codec.seq_encode h, List.length_append]

end

theorem sum_of_constant {α : Type} {xs : List α} {size : α → Nat} {n : Nat}
    (h : ∀ x ∈ xs, size x = n) : (xs.map size).sum = n * xs.length := by
  rw [List.map_congr_left h, List.map_const', List.sum_replicate_nat, Nat.mul_comm]

theorem signature_length (v : Signature) : (signature.encode v).length = 64 := bytesOfPod_length 64 _

theorem ringSignature_length {sigs : List Signature} (h : FitsVector sigs) :
    (ringSignature.encode sigs).length = varintSize sigs.length + 64 * sigs.length := by
  refine (vec_length h fun v _ => signature_ok v).trans ?_
  rw [sum_of_constant fun v _ => signature_length v]

/-- A transaction is its prefix and its signatures. -/
theorem transaction_length {tx : Transaction}
    (hok : (transactionPrefix.write tx.toTransactionPrefix).ok = true)
    (hsigs : FitsVector tx.signatures) (hrings : ∀ sigs ∈ tx.signatures, FitsVector sigs) :
    (txToBlob tx).length = (transactionPrefix.encode tx.toTransactionPrefix).length +
      (varintSize tx.signatures.length +
        (tx.signatures.map fun sigs => varintSize sigs.length + 64 * sigs.length).sum) := by
  have hring : ∀ sigs ∈ tx.signatures, (ringSignature.write sigs).ok = true :=
    fun sigs h => vec_ok (hrings sigs h) fun v _ => signature_ok v
  show ((transactionPrefix.seq (vec ringSignature vec_pos)).encode
    (tx.toTransactionPrefix, tx.signatures)).length = _
  have hlen : ((vec ringSignature vec_pos).encode tx.signatures).length =
      varintSize tx.signatures.length +
        (tx.signatures.map fun sigs => (ringSignature.encode sigs).length).sum :=
    vec_length hsigs hring
  rw [List.map_congr_left fun sigs h => ringSignature_length (hrings sigs h)] at hlen
  rw [seq_length hok]
  exact congrArg _ hlen

/-! ## The size of a prefix -/

theorem varint64_length (v : UInt64) : (varint64.encode v).length = varintSize v.toNat :=
  writeVarint_length v.toNat_lt

theorem hash_length (v : Hash) : (hash.encode v).length = 32 := bytesOfPod_length 32 _

theorem bytes_length {b : Blob} (h : FitsVector b) : (bytes.encode b).length = bytesSize b := by
  have hone : ∀ c ∈ b, (Codec.byte.encode c).length = 1 := fun _ _ => rfl
  refine (vec_length h fun _ _ => rfl).trans ?_
  rw [sum_of_constant hone, Nat.one_mul]
  rfl

theorem script_length {s : List PublicKey × Blob} (hkeys : FitsVector s.1) (hscript : FitsVector s.2) :
    (script.encode s).length = scriptSize s.1 s.2 := by
  have hlen : (hashes.encode s.1).length = varintSize s.1.length + 32 * s.1.length := by
    refine (vec_length hkeys fun v _ => hash_ok v).trans ?_
    rw [sum_of_constant fun v _ => hash_length v]
  unfold script
  rw [seq_length (hashes_ok hkeys) s.2, hlen, bytes_length hscript]
  rfl

theorem txoutTarget_length {t : TxoutTarget} (h : t.Sized) :
    (txoutTarget.encode t).length = txoutTargetSize t := by
  cases t with
  | toScript keys s =>
    show (script.encode (keys, s)).length + 1 = _
    rw [script_length h.1 h.2, Nat.add_comm]
    rfl
  | toScripthash v =>
    show (hash.encode v).length + 1 = _
    rw [hash_length]
    rfl
  | toKey key mix =>
    show ((hash.seq Codec.byte).encode (key, mix)).length + 1 = _
    rw [seq_length (hash_ok key), hash_length]
    rfl

theorem txOut_length {o : TxOut} (h : o.target.Sized) : (txOut.encode o).length = txOutSize o := by
  show ((varint64.seq txoutTarget).encode (o.amount, o.target)).length = _
  rw [seq_length (varint64_ok _), varint64_length, txoutTarget_length h]
  rfl

theorem txin_length {i : Txin} (h : i.Sized) : (txin.encode i).length = txinSize i := by
  cases i with
  | gen height =>
    show (varint64.encode height).length + 1 = _
    rw [varint64_length, Nat.add_comm]
    rfl
  | toScript prev prevout sigset =>
    show ((hash.seq (varint64.seq bytes)).encode (prev, prevout, sigset)).length + 1 = _
    rw [seq_length (hash_ok prev), seq_length (varint64_ok prevout), hash_length, varint64_length,
      bytes_length h]
    show _ = 1 + 32 + varintSize prevout.toNat + bytesSize sigset
    omega
  | toScripthash prev prevout keys s sigset =>
    show ((hash.seq (varint64.seq (script.seq bytes))).encode
      (prev, prevout, (keys, s), sigset)).length + 1 = _
    have hscript : (script.write (keys, s)).ok = true := script_ok h.1.1 h.1.2
    have hlen : (script.encode (keys, s)).length = scriptSize keys s := script_length h.1.1 h.1.2
    rw [seq_length (hash_ok prev), seq_length (varint64_ok prevout), seq_length hscript, hash_length,
      varint64_length, hlen, bytes_length h.2]
    show _ = 1 + 32 + varintSize prevout.toNat + scriptSize keys s + bytesSize sigset
    omega
  | toKey amount keyOffsets kImage =>
    have hoffsets : (varints.encode keyOffsets).length =
        varintSize keyOffsets.length + (keyOffsets.map fun o => varintSize o.toNat).sum := by
      refine (vec_length h fun v _ => varint64_ok v).trans ?_
      rw [List.map_congr_left fun v _ => varint64_length v]
    show ((varint64.seq (varints.seq hash)).encode (amount, keyOffsets, kImage)).length + 1 = _
    rw [seq_length (varint64_ok amount), seq_length (varints_ok h), varint64_length, hoffsets,
      hash_length]
    show _ = 1 + varintSize amount.toNat +
      (varintSize keyOffsets.length + (keyOffsets.map fun o => varintSize o.toNat).sum) + 32
    omega

/-- What is said of the size of a prefix elsewhere is the length of what is written. -/
theorem transactionPrefix_length {tx : TransactionPrefix} (h : tx.Sized) :
    (transactionPrefix.encode tx).length = serializedPrefixSize tx := by
  unfold serializedPrefixSize
  show ((version.seq (varint64.seq ((vec txin txin_pos).seq ((vec txOut txOut_pos).seq bytes)))).encode
    (tx.version, tx.unlockTime, tx.vin, tx.vout, tx.extra)).length = _
  by_cases hversion : currentTransactionVersion < tx.version.toNat
  · -- the writer stops behind the version
    have hstop : (version.write tx.version).ok ≠ true := by
      rw [Ne, version_ok]
      omega
    show (ByteOutput.andThen _ _).bytes.length = _
    unfold ByteOutput.andThen
    rw [if_pos hversion, if_neg hstop]
    exact varint64_length tx.version
  · have hgo : (version.write tx.version).ok = true := version_ok.2 (by omega)
    have hvin : ((vec txin txin_pos).write tx.vin).ok = true :=
      vec_ok h.vin fun i hi => txin_ok (h.input i hi)
    have hvout : ((vec txOut txOut_pos).write tx.vout).ok = true :=
      vec_ok h.vout fun o ho => txOut_ok (h.output o ho)
    have hins : ((vec txin txin_pos).encode tx.vin).length =
        varintSize tx.vin.length + (tx.vin.map txinSize).sum := by
      rw [vec_length h.vin fun i hi => txin_ok (h.input i hi)]
      exact congrArg _ (congrArg List.sum (List.map_congr_left fun i hi => txin_length (h.input i hi)))
    have houts : ((vec txOut txOut_pos).encode tx.vout).length =
        varintSize tx.vout.length + (tx.vout.map txOutSize).sum := by
      rw [vec_length h.vout fun o ho => txOut_ok (h.output o ho)]
      exact congrArg _ (congrArg List.sum (List.map_congr_left fun o ho => txOut_length (h.output o ho)))
    rw [if_neg hversion, seq_length hgo, seq_length (varint64_ok _), seq_length hvin,
      seq_length hvout, varint64_length, hins, houts, bytes_length h.extra]
    show (varint64.encode tx.version).length + _ = _
    rw [varint64_length]
    omega

end Archive

/-! ## The formula -/

/-- `get_object_blobsize` of a prefix serialises it. -/
def Env.SizesReal (env : Env) : Prop :=
  ∀ tx : TransactionPrefix, env.prefixBlobsize tx = (Archive.transactionPrefix.encode tx).length

/-- As many signatures for each input as `get_signature_size` wants. -/
def SignaturesFit (tx : Transaction) : Prop :=
  List.Forall₂ (fun i sigs => sigs.length = getSignatureSize i) tx.vin tx.signatures

/-- Counts below 2^32, of inputs and of signatures for each of them. -/
structure CountsSmall (tx : TransactionPrefix) : Prop where
  inputs : tx.vin.length < 2 ^ 32
  rings : ∀ i ∈ tx.vin, getSignatureSize i < 2 ^ 32

/-- Input by input, the formula counts what the signatures take up. -/
theorem countedSignatures_eq {vin : List Txin} {signatures : List (List Signature)}
    (hfit : List.Forall₂ (fun i sigs => sigs.length = getSignatureSize i) vin signatures)
    (hsmall : ∀ i ∈ vin, getSignatureSize i < 2 ^ 32) :
    (vin.map fun i => 64 * getSignatureSize i + getVarintPackedSize (getSignatureSize i)).sum =
      (signatures.map fun sigs => varintSize sigs.length + 64 * sigs.length).sum := by
  induction hfit with
  | nil => rfl
  | cons hlen hrest ih =>
    rw [List.forall_mem_cons] at hsmall
    rw [List.map_cons, List.map_cons, List.sum_cons, List.sum_cons, ih hsmall.2, hlen,
      getVarintPackedSize_eq (by have := hsmall.1; omega)]
    omega

/-- The size of a transaction with a version the archive knows is the length of its
blob, and no signature comes into it. -/
theorem blobsize_is_real_size {env : Env} {tx : Transaction} (hsize : env.SizesReal)
    (hcoinbase : isCoinbase tx.toTransactionPrefix = false) (hversion : tx.Current)
    (hsized : tx.toTransactionPrefix.Sized) (hfit : SignaturesFit tx)
    (hsmall : CountsSmall tx.toTransactionPrefix) :
    getObjectBlobsize env tx.toTransactionPrefix = (txToBlob tx).length ∧
      getObjectBlobsize env { tx with signatures := [] }.toTransactionPrefix =
        getObjectBlobsize env tx.toTransactionPrefix := by
  refine ⟨?_, rfl⟩
  have hok := Archive.transactionPrefix_ok hversion hsized
  have hcount : tx.signatures.length = tx.vin.length := hfit.length_eq.symm
  have hrings : ∀ sigs ∈ tx.signatures, FitsVector sigs := by
    intro sigs hsigs
    obtain ⟨j, hj⟩ := List.mem_iff_getElem?.1 hsigs
    obtain ⟨i, hi, hlen⟩ : ∃ i ∈ tx.vin, sigs.length = getSignatureSize i := by
      have hlt := (List.getElem?_eq_some_iff.1 hj).1
      refine ⟨tx.vin[j], List.getElem_mem _, ?_⟩
      have hget := (List.forall₂_iff_get.1 hfit).2 j (hcount ▸ hlt) hlt
      obtain ⟨_, rfl⟩ := List.getElem?_eq_some_iff.1 hj
      exact hget
    have := hsmall.rings i hi
    unfold FitsVector
    omega
  rw [Archive.transaction_length hok (by unfold FitsVector; have := hsmall.inputs; omega) hrings]
  unfold getObjectBlobsize
  rw [if_neg (by rw [hcoinbase]; exact Bool.false_ne_true), hsize,
    countedSignatures_eq hfit hsmall.rings, hcount,
    getVarintPackedSize_eq (by have := hsmall.inputs; omega)]
  omega

namespace Devnet

/-- The network with real sizes. -/
def sizedEnv : Env :=
  { env with prefixBlobsize := fun tx => (Archive.transactionPrefix.encode tx).length }

/-- Two inputs, with one and with two signatures. -/
def signedTx : Transaction where
  version := 1
  unlockTime := 0
  vin := [.toKey 5 [0] 1, .toKey 7 [0, 3] 2]
  vout := [⟨11, .toKey 5 0⟩]
  extra := [1, 2, 3]
  signatures := [[0], [0, 0]]

theorem signedTx_current : signedTx.Current := by
  unfold Transaction.Current
  decide

theorem signedTx_sized : signedTx.toTransactionPrefix.Sized := by
  refine ⟨?_, ?_, ?_, ?_, ?_⟩
  · unfold FitsVector; decide
  · unfold FitsVector; decide
  · unfold FitsVector; decide
  · intro i hi
    rcases List.mem_cons.1 hi with rfl | hi
    · unfold Txin.Sized FitsVector; decide
    · rw [List.mem_singleton.1 hi]
      unfold Txin.Sized FitsVector; decide
  · intro o ho
    rw [List.mem_singleton.1 ho]
    trivial

theorem signedTx_small : CountsSmall signedTx.toTransactionPrefix := by
  refine ⟨by decide, ?_⟩
  intro i hi
  rcases List.mem_cons.1 hi with rfl | hi
  · decide
  · rw [List.mem_singleton.1 hi]
    decide

/-- Nothing in it, and a version from the future. -/
def futureTx : Transaction where
  version := 2
  unlockTime := 0
  vin := []
  vout := []
  extra := []
  signatures := []

end Devnet

theorem blobsize_is_real_size_signedTx :
    getObjectBlobsize Devnet.sizedEnv Devnet.signedTx.toTransactionPrefix =
      (txToBlob Devnet.signedTx).length :=
  (blobsize_is_real_size (fun _ => rfl) rfl Devnet.signedTx_current
    Devnet.signedTx_sized (.cons rfl (.cons rfl .nil)) Devnet.signedTx_small).1

/-- Behind a version from the future nothing is written, but counted. -/
theorem blobsize_future_version :
    isCoinbase Devnet.futureTx.toTransactionPrefix = false ∧ SignaturesFit Devnet.futureTx ∧
      CountsSmall Devnet.futureTx.toTransactionPrefix ∧
      getObjectBlobsize Devnet.sizedEnv Devnet.futureTx.toTransactionPrefix ≠
        (txToBlob Devnet.futureTx).length :=
  ⟨rfl, .nil, ⟨by decide, nofun⟩, by decide⟩

end DarknetSpace
