import DarknetSpace.Basic.Types
import Mathlib.Data.List.Sort

/-!
# Amounts, sizes, rewards and difficulty (`currency_format_utils.cpp`,
`currency_basic_impl.cpp`, `difficulty.cpp`)

The arithmetic a block is judged by. Amounts are summed in `uint64_t` and the
overflow checks compare a partial sum with the next one, as the source does.
The reward's 128-bit product and two divisions are exact, so they are written
on natural numbers; so is the difficulty, whose `uint128_t` differences wrap.

The functions are shared by everything that judges a block: a push, an alternative
block, a template, the pool. What they compute as exact numbers is in `Amounts`; the
machine words behind the reward and the difficulty, with the assertions the source makes
on them, are in `Reward` and `Difficulty`, where they are shown to give what is written
here.
-/

namespace DarknetSpace

/-! ## Ids -/

/-- `get_transaction_hash`: signatures are not hashed. -/
def getTransactionHash (env : Env) (tx : Transaction) : Hash :=
  env.hashPrefix tx.toTransactionPrefix

/-- `get_block_hash`. -/
def getBlockHash (env : Env) (b : Block) : Hash := env.hashBlock b

def isCoinbase (tx : TransactionPrefix) : Bool :=
  match tx.vin with
  | [.gen _] => true
  | _ => false

/-- `get_block_height`: 0 when the miner transaction has no height. -/
def getBlockHeight (b : Block) : UInt64 :=
  match b.minerTx.vin with
  | [.gen height] => height
  | _ => 0

/-! ## Sums of amounts -/

/-- `get_inputs_money_amount`; `none` on an input that is not `txin_to_key`. -/
def getInputsMoneyAmount (tx : TransactionPrefix) : Option UInt64 :=
  tx.vin.foldlM (fun (money : UInt64) i =>
    match i with
    | .toKey amount _ _ => some (money + amount)
    | _ => none) 0

def getOutsMoneyAmount (tx : TransactionPrefix) : UInt64 :=
  tx.vout.foldl (fun (money : UInt64) o => money + o.amount) 0

/-- `get_tx_fee(tx, fee)`; `none` where the source returns `false`. -/
def getTxFeeChecked (tx : TransactionPrefix) : Option UInt64 :=
  match getInputsMoneyAmount tx with
  | none => none
  | some amountIn =>
    if amountIn ≥ getOutsMoneyAmount tx then some (amountIn - getOutsMoneyAmount tx) else none

/-- `get_tx_fee(tx)`. -/
def getTxFee (tx : TransactionPrefix) : UInt64 := (getTxFeeChecked tx).getD 0

/-- `for each amount: if(money > amount + money) return false; money += amount;` -/
def sumOverflowFree : UInt64 → List UInt64 → Bool
  | _, [] => true
  | money, a :: rest => if money > a + money then false else sumOverflowFree (money + a) rest

/-- `check_inputs_overflow`: it also refuses an input of another type, but only
once every input before it has been summed. -/
def checkInputsOverflow (tx : TransactionPrefix) : Bool :=
  go 0 tx.vin
where
  go (money : UInt64) : List Txin → Bool
    | [] => true
    | .toKey amount _ _ :: rest => if money > amount + money then false else go (money + amount) rest
    | _ :: _ => false

def checkOutsOverflow (tx : TransactionPrefix) : Bool :=
  sumOverflowFree 0 (tx.vout.map (·.amount))

def checkMoneyOverflow (tx : TransactionPrefix) : Bool :=
  checkInputsOverflow tx && checkOutsOverflow tx

def checkInputsTypesSupported (tx : TransactionPrefix) : Bool :=
  tx.vin.all fun
    | .toKey _ _ _ => true
    | _ => false

def checkOutsValid (env : Env) (tx : TransactionPrefix) : Bool :=
  tx.vout.all fun o =>
    match o.target with
    | .toKey key _ => decide (0 < o.amount) && env.checkKey key
    | _ => false

/-! ## Blob sizes -/

/-- `get_varint_packed_size`. -/
def getVarintPackedSize (v : Nat) : Nat :=
  if v ≤ 127 then 1
  else if v ≤ 16383 then 2
  else if v ≤ 2097151 then 3
  else if v ≤ 268435455 then 4
  else if v ≤ 34359738367 then 5
  else if v ≤ 4398046511103 then 6
  else if v ≤ 562949953421311 then 7
  else 8

/-- `transaction::get_signature_size`. -/
def getSignatureSize : Txin → Nat
  | .toKey _ keyOffsets _ => keyOffsets.length
  | _ => 0

/-- `get_object_blobsize(tx)`: computed from the inputs, not from the
signatures the transaction carries. -/
def getObjectBlobsize (env : Env) (tx : TransactionPrefix) : Nat :=
  if isCoinbase tx then env.prefixBlobsize tx
  else
    env.prefixBlobsize tx
      + (tx.vin.map fun i => 64 * getSignatureSize i + getVarintPackedSize (getSignatureSize i)).sum
      + getVarintPackedSize tx.vin.length

/-! ## Medians -/

/-- `misc_utils::median`; the sum of the two middle elements is the element
type's own, so it wraps for `uint64_t`. -/
def median {α : Type} [Zero α] [Add α] [Div α] [OfNat α 2] [LE α] [DecidableLE α]
    (v : List α) : α :=
  if v.length = 0 then 0
  else if v.length = 1 then v.getD 0 0
  else
    let n := v.length / 2
    let v := v.insertionSort (· ≤ ·)
    if v.length % 2 = 1 then v.getD n 0
    else (v.getD (n - 1) 0 + v.getD n 0) / 2

/-! ## Rewards -/

def getBlockGrantedFullRewardZone (blockHeight : Nat) : Nat :=
  if blockHeight < currencyBlockGrantedFullRewardZoneEnlargeStartingBlock then
    currencyBlockGrantedFullRewardZone
  else currencyBlockGrantedFullRewardZoneEnlarge

def getMaxTransactionBlobSize (blockHeight : Nat) : Nat :=
  if blockHeight < currencyBlockGrantedFullRewardZoneEnlargeStartingBlock then
    currencyMaxTransactionBlobSize
  else currencyMaxTransactionBlobSizeEnlarge

/-- `get_block_reward`; `none` where the source returns `false`. -/
def getBlockReward (medianSize currentBlockSize : Nat) (alreadyGeneratedCoins : UInt64)
    (blockHeight : Nat) : Option UInt64 :=
  let baseReward := (emissionSupply - alreadyGeneratedCoins) >>> emissionCurveCharacter
  -- crop dust
  let baseReward := baseReward - baseReward % defaultDustThreshold
  let medianSize := max medianSize (getBlockGrantedFullRewardZone blockHeight)
  if currentBlockSize ≤ medianSize then some baseReward
  else if 2 * medianSize < currentBlockSize then none
  else if ¬ medianSize < 2 ^ 32 - 1 ∨ ¬ currentBlockSize < 2 ^ 32 - 1 then none
  else
    let product := baseReward.toNat * (currentBlockSize * (2 * medianSize - currentBlockSize))
    let reward := product / medianSize / medianSize
    if reward < 2 ^ 64 ∧ reward < baseReward.toNat then some (UInt64.ofNat reward) else none

/-! ## Difficulty -/

/-- `uint128_t` difference. -/
def sub128 (a b : Nat) : Nat := (a + 2 ^ 128 - b) % 2 ^ 128

/-- `next_difficulty`; 0 is the source's overflow value. -/
def nextDifficulty (timestamps : List UInt64) (cumulativeDifficulties : List Nat) : Nat :=
  -- cutoff DIFFICULTY_LAG
  let timestamps := timestamps.take difficultyWindow
  let cumulativeDifficulties := cumulativeDifficulties.take difficultyWindow
  let length := timestamps.length
  if length ≤ 1 then 1
  else
    let timestamps := timestamps.insertionSort (· ≤ ·)
    let kept := difficultyWindow - 2 * difficultyCut
    let cutBegin := if length ≤ kept then 0 else (length - kept + 1) / 2
    let cutEnd := if length ≤ kept then length else cutBegin + kept
    let timeSpan := (timestamps.getD (cutEnd - 1) 0 - timestamps.getD cutBegin 0).toNat
    let timeSpan := if timeSpan = 0 then 1 else timeSpan
    let totalWork :=
      sub128 (cumulativeDifficulties.getD (cutEnd - 1) 0) (cumulativeDifficulties.getD cutBegin 0)
    let res := (totalWork * difficultyTarget + timeSpan - 1) / timeSpan
    if 2 ^ 128 - 1 < res then 0 else res

end DarknetSpace
