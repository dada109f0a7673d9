import DarknetSpace.Crypto.Signing
import DarknetSpace.Wallet.Transfer

/-!
# One-time keys (`crypto.cpp`, `currency_format_utils.cpp`)

The sender multiplies the receiver's view key by the secret of the transaction,
the receiver the transaction's key by his view secret, both by 8, and so both hash
the same point with the index of the output. The sender adds the multiple of the
base point to the receiver's spend key, the receiver adds the scalar to its
secret. `KeyDerivation` and `ImageDerivation` are what other modules take of this.

Main result: `stealth_output_spendable`, for every account and index, over any group
with a base point. The receiver finds the key that the sender made, computes the secret
of it, and with that the key image: the same derivation from both sides.
-/

namespace DarknetSpace

namespace Curve

variable {Γ : Type} [AddCommGroup Γ] (C : Curve Γ)

section

variable (cnFastHash : Blob → Hash)

/-- Nothing where it returns `false`. -/
def generateKeyDerivation (key1 : PublicKey) (key2 : SecretKey) : Option EcPoint :=
  (C.frombytes key1).map fun point => C.tobytes (8 • key2.toNat • point)

def hashToScalar (data : Blob) : Nat := (cnFastHash data).toNat % C.l

def derivationToScalar (derivation : EcPoint) (outputIndex : Nat) : Nat :=
  C.hashToScalar cnFastHash (bytesOfPod 32 derivation.toNat ++ writeVarint outputIndex)

/-- Nothing where it returns `false`. -/
def derivePublicKey (derivation : EcPoint) (outputIndex : Nat) (base : PublicKey) :
    Option PublicKey :=
  (C.frombytes base).map fun point =>
    C.tobytes (point + C.derivationToScalar cnFastHash derivation outputIndex • C.base)

/-- `sc_add`. -/
def deriveSecretKey (derivation : EcPoint) (outputIndex : Nat) (base : SecretKey) : SecretKey :=
  BitVec.ofNat 256
    ((base.toNat + C.derivationToScalar cnFastHash derivation outputIndex) % C.l)

/-- `construct_tx_out`; nothing where it returns `false`. -/
def constructTxOut (destinationAddr : AccountPublicAddress) (txSecKey : SecretKey)
    (outputIndex : Nat) (amount : UInt64) (tx : Transaction) (txOutsAttr : UInt8) :
    Option Transaction :=
  match C.generateKeyDerivation destinationAddr.mViewPublicKey txSecKey with
  | none => none
  | some derivation =>
    match C.derivePublicKey cnFastHash derivation outputIndex destinationAddr.mSpendPublicKey with
    | none => none
    | some outEphPublicKey =>
      some { tx with vout := tx.vout ++ [⟨amount, .toKey outEphPublicKey txOutsAttr⟩] }

/-- `is_out_to_acc` does not look at what the two calls return: nothing where one
of them fails and what is compared was never written. -/
def isOutToAcc (acc : AccountKeys) (outKey txPubKey : PublicKey) (outputIndex : Nat) :
    Option Bool :=
  match C.generateKeyDerivation txPubKey acc.mViewSecretKey with
  | none => none
  | some derivation =>
    (C.derivePublicKey cnFastHash derivation outputIndex acc.mAccountAddress.mSpendPublicKey).map
      fun pk => pk == outKey

/-- `generate_key_image_helper`: the pair of keys, and the image. -/
def generateKeyImageHelper (fromfe : PublicKey → Γ) (ack : AccountBase) (txPublicKey : PublicKey)
    (realOutputIndex : Nat) : Option ((PublicKey × SecretKey) × KeyImage) :=
  match C.generateKeyDerivation txPublicKey ack.keys.mViewSecretKey with
  | none => none
  | some recvDerivation =>
    match C.derivePublicKey cnFastHash recvDerivation realOutputIndex
        ack.keys.mAccountAddress.mSpendPublicKey with
    | none => none
    | some pub =>
      let sec := C.deriveSecretKey cnFastHash recvDerivation realOutputIndex ack.mSpendSecretKey
      some ((pub, sec), C.generateKeyImage fromfe pub sec.toNat)

/-- The sender's side, as the miner and the wallet use it. -/
def keyDerivation : KeyDerivation where
  pub sec := C.tobytes (sec.toNat • C.base)
  outKey dest txSecKey i :=
    (C.generateKeyDerivation dest.mViewPublicKey txSecKey).bind fun derivation =>
      C.derivePublicKey cnFastHash derivation i dest.mSpendPublicKey

/-- The receiver's side. -/
def imageDerivation (fromfe : PublicKey → Γ) : ImageDerivation where
  generateKeyImageHelper acc txPublicKey i :=
    (C.generateKeyImageHelper cnFastHash fromfe acc txPublicKey i).map
      fun (inEphemeral, ki) => (inEphemeral.1, ki)

/-- One output more, as `construct_miner_tx` and `construct_tx` collect them. -/
theorem constructTxOut_keyDerivation (destinationAddr : AccountPublicAddress)
    (txSecKey : SecretKey) (outputIndex : Nat) (amount : UInt64) (tx : Transaction) :
    C.constructTxOut cnFastHash destinationAddr txSecKey outputIndex amount tx 0 =
      (DarknetSpace.constructTxOut (C.keyDerivation cnFastHash) destinationAddr txSecKey outputIndex
        amount).map fun o => { tx with vout := tx.vout ++ [o] } := by
  unfold constructTxOut DarknetSpace.constructTxOut keyDerivation
  cases hderive : C.generateKeyDerivation destinationAddr.mViewPublicKey txSecKey with
  | none =>
    simp only [hderive, Option.bind_none, Option.map_none]
  | some derivation =>
    simp only [hderive, Option.bind_some]
    cases C.derivePublicKey cnFastHash derivation outputIndex destinationAddr.mSpendPublicKey with
    | none => simp only [Option.map_none]
    | some key => simp only [Option.map_some]

/-- The public keys of the account are those of its secrets. -/
structure Keyed (acc : AccountBase) : Prop where
  view : acc.keys.mAccountAddress.mViewPublicKey =
    C.tobytes (acc.keys.mViewSecretKey.toNat • C.base)
  spend : acc.keys.mAccountAddress.mSpendPublicKey =
    C.tobytes (acc.mSpendSecretKey.toNat • C.base)

/-- The key of an output, its secret and its image are the account's to spend: the
helper finds them, they belong together, and in any ring of valid keys that has
the key in its place `construct_tx` takes the source and the check its signature. -/
structure Spends (H : Hashes Γ) (acc : AccountBase) (txPublicKey : PublicKey) (i : Nat)
    (pub : PublicKey) (sec : SecretKey) (image : KeyImage) : Prop where
  helper : C.generateKeyImageHelper cnFastHash H.fromfe acc txPublicKey i = some ((pub, sec), image)
  opens : pub = C.tobytes (sec.toNat • C.base)
  marks : image = C.tobytes (sec.toNat • hashToEc H.fromfe pub)
  input : ∀ src : TxSourceEntry, src.realOutTxKey = txPublicKey → src.realOutputInTxIndex = i →
    (src.outputs[src.realOutput]?).map Prod.snd = some pub →
    constructInput (C.imageDerivation cnFastHash H.fromfe) acc src = some (.toKey src.amount
      (absoluteOutputOffsetsToRelative (src.outputs.map Prod.fst)) image)
  signature : ∀ src : TxSourceEntry, (src.outputs[src.realOutput]?).map Prod.snd = some pub →
    (∀ o ∈ src.outputs, (C.frombytes o.2).isSome = true) → ∀ prefixHash random,
    ∃ sigs, C.generateRingSignature H prefixHash image (src.outputs.map Prod.snd) sec.toNat
        src.realOutput random = some sigs ∧
      sigs.length = src.outputs.length ∧
      C.checkRingSignature H prefixHash image (src.outputs.map Prod.snd) sigs = some true

/-! ## The two sides -/

variable {cnFastHash}

/-- The point both sides hash. -/
theorem derivations_agree {acc : AccountBase} (hacc : C.Keyed acc) (txSecKey : SecretKey) :
    C.generateKeyDerivation (C.tobytes (txSecKey.toNat • C.base)) acc.keys.mViewSecretKey =
      C.generateKeyDerivation acc.keys.mAccountAddress.mViewPublicKey txSecKey := by
  unfold generateKeyDerivation
  have hcomm : acc.keys.mViewSecretKey.toNat • txSecKey.toNat • C.base =
      txSecKey.toNat • acc.keys.mViewSecretKey.toNat • C.base := by
    rw [← mul_nsmul', ← mul_nsmul', mul_comm]
  rw [hacc.view, C.frombytes_tobytes, C.frombytes_tobytes, Option.map_some, Option.map_some, hcomm]

theorem generateKeyDerivation_view {acc : AccountBase} (hacc : C.Keyed acc)
    (txSecKey : SecretKey) :
    ∃ derivation,
      C.generateKeyDerivation acc.keys.mAccountAddress.mViewPublicKey txSecKey = some derivation := by
  unfold generateKeyDerivation
  rw [hacc.view, C.frombytes_tobytes]
  exact ⟨_, rfl⟩

/-- Adding the scalar to the secret adds its multiple of the base point to the key. -/
theorem derivePublicKey_spend {acc : AccountBase} (hacc : C.Keyed acc) (derivation : EcPoint)
    (i : Nat) :
    C.derivePublicKey cnFastHash derivation i acc.keys.mAccountAddress.mSpendPublicKey =
      some (C.tobytes
        ((C.deriveSecretKey cnFastHash derivation i acc.mSpendSecretKey).toNat • C.base)) := by
  obtain ⟨scalar, hscalar⟩ :
      ∃ scalar, C.derivationToScalar cnFastHash derivation i = scalar := ⟨_, rfl⟩
  have hsec : (C.deriveSecretKey cnFastHash derivation i acc.mSpendSecretKey).toNat =
      (acc.mSpendSecretKey.toNat + scalar) % C.l := by
    unfold deriveSecretKey
    rw [hscalar, BitVec.toNat_ofNat, Nat.mod_eq_of_lt ((Nat.mod_lt _ C.prime.pos).trans C.l_lt)]
  unfold derivePublicKey
  rw [hacc.spend, C.frombytes_tobytes, Option.map_some, hscalar, ← add_nsmul, hsec,
    C.smul_congr C.base_order (Nat.mod_modEq (acc.mSpendSecretKey.toNat + scalar) C.l)]

/-- What the output of a transaction to the account holds. -/
theorem constructTxOut_keyed {acc : AccountBase} (hacc : C.Keyed acc) {txSecKey : SecretKey}
    {derivation : EcPoint} (i : Nat)
    (hderive : C.generateKeyDerivation acc.keys.mAccountAddress.mViewPublicKey txSecKey =
      some derivation) (amount : UInt64) (tx : Transaction) (txOutsAttr : UInt8) :
    C.constructTxOut cnFastHash acc.keys.mAccountAddress txSecKey i amount tx txOutsAttr =
      some { tx with vout := tx.vout ++ [⟨amount, .toKey (C.tobytes
        ((C.deriveSecretKey cnFastHash derivation i acc.mSpendSecretKey).toNat • C.base))
        txOutsAttr⟩] } := by
  unfold constructTxOut
  rw [hderive]
  simp only
  rw [C.derivePublicKey_spend hacc]

theorem spends_of_derivation (H : Hashes Γ) {acc : AccountBase} (hacc : C.Keyed acc)
    {txPublicKey : PublicKey} {derivation : EcPoint} (i : Nat)
    (hderive : C.generateKeyDerivation txPublicKey acc.keys.mViewSecretKey = some derivation)
    {sec : SecretKey} {pub : PublicKey}
    (hsec : sec = C.deriveSecretKey cnFastHash derivation i acc.mSpendSecretKey)
    (hpub : pub = C.tobytes (sec.toNat • C.base)) :
    C.Spends cnFastHash H acc txPublicKey i pub sec (C.generateKeyImage H.fromfe pub sec.toNat) := by
  have hhelper : C.generateKeyImageHelper cnFastHash H.fromfe acc txPublicKey i =
      some ((pub, sec), C.generateKeyImage H.fromfe pub sec.toNat) := by
    unfold generateKeyImageHelper
    rw [hderive]
    simp only
    rw [C.derivePublicKey_spend hacc, ← hsec, ← hpub]
  refine ⟨hhelper, hpub, rfl, ?_, ?_⟩
  · intro src hkey hindex hreal
    obtain ⟨real, hreal, hpubReal⟩ := Option.map_eq_some_iff.1 hreal
    unfold constructInput imageDerivation
    rw [hreal]
    simp only
    rw [hkey, hindex, hhelper]
    simp only [Option.map_some]
    rw [if_neg (fun hne => hne hpubReal.symm)]
  · intro src hreal hkeys prefixHash random
    have hown : (src.outputs.map Prod.snd)[src.realOutput]? = some pub := by
      rw [List.getElem?_map]
      exact hreal
    have hvalid : ∀ key ∈ src.outputs.map Prod.snd, (C.frombytes key).isSome = true := by
      intro key hmem
      obtain ⟨o, ho, rfl⟩ := List.mem_map.1 hmem
      exact hkeys o ho
    have hpoint : C.frombytes pub = some (sec.toNat • C.base) := by
      rw [hpub]
      exact C.frombytes_tobytes _
    obtain ⟨sigs, hsigs, hlen, hcheck⟩ := C.generateRingSignature_spec H prefixHash random hvalid
      hown hpoint (C.frombytes_tobytes _)
    exact ⟨sigs, hsigs, by rw [hlen, List.length_map], hcheck⟩

/-- The helper finds the key that `is_out_to_acc` has compared. -/
theorem imageDerivation_finds (fromfe : PublicKey → Γ) {acc : AccountBase} {key txPubKey : PublicKey}
    {i : Nat} (h : C.isOutToAcc cnFastHash acc.keys key txPubKey i = some true) :
    ∃ image, (C.imageDerivation cnFastHash fromfe).generateKeyImageHelper acc txPubKey i =
      some (key, image) := by
  show ∃ image, (C.generateKeyImageHelper cnFastHash fromfe acc txPubKey i).map _ = _
  unfold isOutToAcc at h
  unfold generateKeyImageHelper
  split at h
  · cases h
  · next derivation hderive =>
    obtain ⟨pk, hpk, hsame⟩ := Option.map_eq_some_iff.1 h
    rw [hpk, ← eq_of_beq hsame]
    exact ⟨_, rfl⟩

end

/-- An output made for an account's address is recognised under the transaction's
public key, and the account can spend it. -/
theorem stealth_output_spendable (H : Hashes Γ) (cnFastHash : Blob → Hash) (acc : AccountBase)
    (hacc : C.Keyed acc) (txSecKey : SecretKey) (outputIndex : Nat) (amount : UInt64)
    (tx : Transaction) (txOutsAttr : UInt8) :
    ∃ pub sec image,
      C.constructTxOut cnFastHash acc.keys.mAccountAddress txSecKey outputIndex amount tx txOutsAttr =
        some { tx with vout := tx.vout ++ [⟨amount, .toKey pub txOutsAttr⟩] } ∧
      C.isOutToAcc cnFastHash acc.keys pub (C.tobytes (txSecKey.toNat • C.base)) outputIndex =
        some true ∧
      C.Spends cnFastHash H acc (C.tobytes (txSecKey.toNat • C.base)) outputIndex pub sec image := by
  obtain ⟨derivation, hderive⟩ := C.generateKeyDerivation_view hacc txSecKey
  have hrecv := (C.derivations_agree hacc txSecKey).trans hderive
  refine ⟨_, _, _, C.constructTxOut_keyed hacc outputIndex hderive amount tx txOutsAttr, ?_,
    C.spends_of_derivation H hacc outputIndex hrecv rfl rfl⟩
  unfold isOutToAcc
  rw [hrecv]
  simp only
  rw [C.derivePublicKey_spend hacc, Option.map_some, beq_self_eq_true]

end Curve

namespace SmallCurve

/-- The account of the secrets 5 to spend and 3 to view. -/
def account : AccountBase where
  keys := { mAccountAddress := ⟨40, 24⟩, mViewSecretKey := 3 }
  mSpendSecretKey := 5
  mCreationTimestamp := 0

/-- The sum of the bytes. -/
def byteHash (data : Blob) : Hash := BitVec.ofNat 256 (data.map UInt8.toNat).sum

/-- A transaction to add an output to. -/
def emptyTx : Transaction :=
  { version := 1, unlockTime := 0, vin := [], vout := [], extra := [], signatures := [] }

theorem account_keyed : curve.Keyed account :=
  ⟨by rfl, by rfl⟩

end SmallCurve

/-- The second output of a transaction with the secret 7. -/
theorem stealth_output_spendable_small :
    ∃ pub sec image,
      SmallCurve.curve.constructTxOut SmallCurve.byteHash SmallCurve.account.keys.mAccountAddress 7 1
          1000 SmallCurve.emptyTx 0 =
        some { SmallCurve.emptyTx with vout := [⟨1000, .toKey pub 0⟩] } ∧
      SmallCurve.curve.isOutToAcc SmallCurve.byteHash SmallCurve.account.keys pub 56 1 = some true ∧
      SmallCurve.curve.Spends SmallCurve.byteHash SmallCurve.hashes SmallCurve.account 56 1 pub sec
        image :=
  SmallCurve.curve.stealth_output_spendable SmallCurve.hashes SmallCurve.byteHash SmallCurve.account
    SmallCurve.account_keyed 7 1 1000 SmallCurve.emptyTx 0

end DarknetSpace
