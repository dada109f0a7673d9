import Std.Data.ExtTreeMap
import Std.Data.ExtTreeSet
import Mathlib.Data.BitVec
import Mathlib.Data.List.Infix
import Mathlib.Data.UInt

/-!
# The currency's data types (`currency_basic.h`, `currency_config.h`)

Inputs, outputs, transactions and blocks as the source declares them. PODs of
the crypto library are bit vectors (`crypto::hash` is 32 bytes), amounts and
other `uint64_t` fields are `UInt64`, so their sums wrap exactly where the
C++ sums do. A `std::string` is a byte string, `Blob`.

Containers keyed by a hash, a key image, an amount or a name are extensional
finite maps: two of them are equal exactly when they hold the same entries,
which is what equality of `std::unordered_map` and `std::map` means.
-/

namespace DarknetSpace

/-- `crypto::hash`, read little-endian. -/
abbrev Hash := BitVec 256

/-- `crypto::key_image`, the image of an output's secret key that marks it spent. -/
abbrev KeyImage := BitVec 256

/-- `crypto::public_key`. -/
abbrev PublicKey := BitVec 256

/-- `crypto::secret_key`. -/
abbrev SecretKey := BitVec 256

/-- `crypto::signature`, the two scalars `c` and `r`. -/
abbrev Signature := BitVec 512

/-- `std::string` and `std::vector<uint8_t>`. -/
abbrev Blob := List UInt8

/-- `null_hash`, the zero hash: what a genesis block names as its previous block. -/
abbrev nullHash : Hash := 0

/-- `null_pkey`, what a parsed extra holds where it has no key. -/
abbrev nullPkey : PublicKey := 0

/-- `null_sig`, the signature of an alias entry that has none. -/
abbrev nullSig : Signature := 0

instance : Std.TransOrd Hash := inferInstance

instance : LawfulBEq Hash := inferInstance

/-- `std::unordered_map` / `std::map`. -/
abbrev Map (κ ν : Type) [Ord κ] := Std.ExtTreeMap κ ν compare

/-! ## Configuration (`currency_config.h`, main net) -/

def currencyMaxBlockNumber : Nat := 500000000
def currencyMaxTxSize : Nat := 1000000000

/-- `CURRENCY_MINED_MONEY_UNLOCK_WINDOW`: a coinbase is locked for 60 blocks. -/
def currencyMinedMoneyUnlockWindow : Nat := 60

/-- `CURRENCY_BLOCK_FUTURE_TIME_LIMIT`: a block may be dated two hours ahead. -/
def currencyBlockFutureTimeLimit : Nat := 60 * 60 * 2

/-- `BLOCKCHAIN_TIMESTAMP_CHECK_WINDOW`: the timestamps a block's is compared with. -/
def blockchainTimestampCheckWindow : Nat := 60

/-- `EMISSION_SUPPLY`, all coins there can be. -/
def emissionSupply : UInt64 := 0xFFFFFFFFFFFFFFFF

/-- `EMISSION_CURVE_CHARACTER`, the shift of the emission curve. -/
def emissionCurveCharacter : UInt64 := 17

/-- `CURRENCY_TO_KEY_OUT_FORCED_NO_MIX`: an output to be spent by a ring of one only. -/
def currencyToKeyOutForcedNoMix : UInt8 := 1

/-- `CURRENCY_REWARD_BLOCKS_WINDOW`, the blocks of the median size. -/
def currencyRewardBlocksWindow : Nat := 400

/-- `CURRENCY_BLOCK_GRANTED_FULL_REWARD_ZONE`: the size up to which no reward is cut. -/
def currencyBlockGrantedFullRewardZone : Nat := 30000
def currencyBlockGrantedFullRewardZoneEnlarge : Nat := 1000000
def currencyBlockGrantedFullRewardZoneEnlargeStartingBlock : Nat := 147000
def currencyCoinbaseBlobReservedSize : Nat := 600
def currencyMaxTransactionBlobSize : Nat :=
  currencyBlockGrantedFullRewardZone - currencyCoinbaseBlobReservedSize * 2
def currencyMaxTransactionBlobSizeEnlarge : Nat :=
  currencyBlockGrantedFullRewardZoneEnlarge - currencyCoinbaseBlobReservedSize * 2
def coin : UInt64 := 10000000000

/-- `DEFAULT_DUST_THRESHOLD`. -/
def defaultDustThreshold : UInt64 := 1000000

/-- `TX_POOL_MINIMUM_FEE`, below which the pool turns a transaction away. -/
def txPoolMinimumFee : UInt64 := 10000000

/-- `MAKE_ALIAS_MINIMUM_FEE`: what registering an alias costs at least. -/
def makeAliasMinimumFee : UInt64 := 100 * coin

/-- `DIFFICULTY_TARGET`, a block a minute. -/
def difficultyTarget : Nat := 60

/-- `DIFFICULTY_WINDOW`, the blocks the next difficulty is computed from. -/
def difficultyWindow : Nat := 720

/-- `DIFFICULTY_LAG`. -/
def difficultyLag : Nat := 15

/-- `DIFFICULTY_CUT`, how many timestamps are cut off at both ends together. -/
def difficultyCut : Nat := 60
def difficultyBlocksCount : Nat := difficultyWindow + difficultyLag
def currencyLockedTxAllowedDeltaBlocks : Nat := 1
def currencyLockedTxAllowedDeltaSeconds : Nat :=
  difficultyTarget * currencyLockedTxAllowedDeltaBlocks
def currencyDonationsStartBlockno : Nat := 4550

/-! ## Transactions -/

/-- `txout_target_v`. -/
inductive TxoutTarget where
  | toScript (keys : List PublicKey) (script : Blob)
  | toScripthash (hash : Hash)
  | toKey (key : PublicKey) (mixAttr : UInt8)
  deriving DecidableEq, Repr

/-- `tx_out`. -/
structure TxOut where
  amount : UInt64
  target : TxoutTarget
  deriving DecidableEq, Repr

/-- `txin_v`. -/
inductive Txin where
  | gen (height : UInt64)
  | toScript (prev : Hash) (prevout : UInt64) (sigset : Blob)
  | toScripthash (prev : Hash) (prevout : UInt64) (keys : List PublicKey) (script sigset : Blob)
  | toKey (amount : UInt64) (keyOffsets : List UInt64) (kImage : KeyImage)
  deriving DecidableEq, Repr

/-- `transaction_prefix`: everything a transaction id commits to. -/
structure TransactionPrefix where
  version : UInt64
  unlockTime : UInt64
  vin : List Txin
  vout : List TxOut
  extra : Blob
  deriving DecidableEq, Repr

/-- `transaction`: the prefix and one group of signatures for each input. -/
structure Transaction extends TransactionPrefix where
  signatures : List (List Signature)
  deriving DecidableEq, Repr

/-- `block_header`. -/
structure BlockHeader where
  majorVersion : UInt8
  minorVersion : UInt8
  timestamp : UInt64
  prevId : Hash
  nonce : UInt64
  flags : UInt8
  deriving DecidableEq, Repr

/-- `block`: the header, the coinbase and the ids of the other transactions. -/
structure Block extends BlockHeader where
  minerTx : Transaction
  txHashes : List Hash
  deriving DecidableEq, Repr

/-- `account_public_address`. -/
structure AccountPublicAddress where
  mSpendPublicKey : PublicKey
  mViewPublicKey : PublicKey
  deriving DecidableEq, Repr

/-- Addresses are compared as the 64 bytes they are. -/
def AccountPublicAddress.cmp : AccountPublicAddress → AccountPublicAddress → Ordering :=
  compareLex (compareOn (·.mSpendPublicKey)) (compareOn (·.mViewPublicKey))

instance : Ord AccountPublicAddress := ⟨AccountPublicAddress.cmp⟩

instance : Std.TransOrd AccountPublicAddress :=
  inferInstanceAs (Std.TransCmp (compareLex (compareOn AccountPublicAddress.mSpendPublicKey)
    (compareOn AccountPublicAddress.mViewPublicKey)))

instance : Std.LawfulEqOrd AccountPublicAddress where
  eq_of_compare {a b} h := by
    obtain ⟨hs, hv⟩ := Ordering.then_eq_eq.1 h
    cases a; cases b
    simp only [compareOn, Std.LawfulEqOrd.compare_eq_iff_eq] at hs hv
    rw [hs, hv]

/-- `account_keys`. -/
structure AccountKeys where
  mAccountAddress : AccountPublicAddress
  mViewSecretKey : SecretKey
  deriving DecidableEq, Repr

/-- `alias_info_base`: a non-zero `m_sign` marks an update of an existing alias. -/
structure AliasInfoBase where
  mAddress : AccountPublicAddress
  mViewKey : SecretKey
  mSign : Signature
  mTextComment : Blob
  deriving DecidableEq, Repr

/-- `alias_info`: the name with its entry. -/
structure AliasInfo extends AliasInfoBase where
  mAlias : Blob
  deriving DecidableEq, Repr

/-- `tx_extra_info`, what `parse_and_validate_tx_extra` has found. -/
structure TxExtraInfo where
  mTxPubKey : PublicKey
  mAlias : AliasInfo
  mUserDataBlob : Blob
  deriving DecidableEq, Repr

/-! ## What the model takes as given -/

/-- The cryptographic primitives, as arbitrary functions of what the source
hands them, and the node's fixed accounts.

* `hashPrefix`, `hashBlock`, `hashTxTree`, `hashTogether`, `hashBlob` are
  `cn_fast_hash` of the serialised prefix, of `get_block_hashing_blob`, the
  tree hash of a block's transaction ids, and of concatenated PODs and blobs;
* `prefixBlobsize` is the length of the serialised prefix;
* `longhash` is `get_block_longhash` (it asks its callback for scratchpad
  entries) and `checkHash` compares its value with a difficulty;
* `parseTx` is `parse_and_validate_tx_from_blob`. -/
structure Env where
  hashPrefix : TransactionPrefix → Hash
  hashBlock : Block → Hash
  hashTxTree : List Hash → Hash
  hashTogether : Hash → PublicKey → Hash
  hashBlob : Blob → Hash
  prefixBlobsize : TransactionPrefix → Nat
  longhash : Block → Nat → (Nat → Hash) → Hash
  checkHash : Hash → Nat → Bool
  checkRingSignature : Hash → KeyImage → List PublicKey → List Signature → Bool
  checkSignature : Hash → PublicKey → Signature → Bool
  checkKey : PublicKey → Bool
  isOutToAcc : AccountKeys → PublicKey → PublicKey → Nat → Bool
  parseTx : Blob → Option Transaction
  donationsAccount : AccountKeys
  royaltyAccount : AccountKeys

/-- How a call leaves other than by returning: `SwappedVector::operator[]`
past the end throws (`indexOverflow`); a read outside a `std::vector` or of an
erased map entry is undefined behaviour (`undefinedBehaviour`); and a loop
whose counter cannot reach its bound does not end (`endless`). -/
inductive Exn where
  | indexOverflow
  | undefinedBehaviour
  | endless
  deriving DecidableEq, Repr

end DarknetSpace
