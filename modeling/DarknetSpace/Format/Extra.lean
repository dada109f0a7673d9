import DarknetSpace.Format.Money

/-!
# The transaction extra field (`currency_format_utils.cpp`, `tx_extra.h`)

`tx.extra` is a byte vector that `parse_and_validate_tx_extra` walks by tags:
a transaction public key, user data, an alias entry, padding. The walk is
written here as the source has it, one loop iteration as one step, with every
`tx.extra[i]` a read that is undefined outside the vector. The alias entry is
where that matters: its length checks let three reads run past the end (the
comment counter, the last byte of the comment, and the second half of a
64-byte signature of which only 32 bytes were checked).

The first read outside the vector ends the walk here: what the source does from
there on is undefined, and nothing is said about it. So the outer loop's own
`tx.extra[i]`, which a long alias entry can take past the end too, is not reached
behind a read of the alias entry that was outside already.
-/

namespace DarknetSpace

def txExtraTagPubkey : UInt8 := 0x01
def txExtraTagUserData : UInt8 := 0x02
def txExtraTagAlias : UInt8 := 0x03
def txExtraTagAliasFlagsOpUpdate : UInt8 := 0x01
def txExtraTagAliasFlagsAddrWithTrack : UInt8 := 0x02

/-! ## Reading a byte vector -/

/-- `v[i]`. -/
def byteAt (v : Blob) (i : Nat) : Except Exn UInt8 :=
  match v[i]? with
  | some b => .ok b
  | none => .error .undefinedBehaviour

/-- The `n` bytes that start at `&v[i]`. -/
def bytesAt (v : Blob) (i n : Nat) : Except Exn Blob :=
  if i + n ≤ v.length then .ok ((v.drop i).take n) else .error .undefinedBehaviour

/-- A POD read from its bytes, the first byte the lowest. -/
def podOfBytes : Blob → Nat
  | [] => 0
  | b :: bs => b.toNat + 256 * podOfBytes bs

/-- The `n` bytes of a POD. -/
def bytesOfPod : (n : Nat) → Nat → Blob
  | 0, _ => []
  | n + 1, v => UInt8.ofNat v :: bytesOfPod n (v / 256)

/-- `*reinterpret_cast<const T*>(&v[i])` for a `T` of `n` bytes. -/
def podAt (n : Nat) (v : Blob) (i : Nat) : Except Exn (BitVec (8 * n)) := do
  let bytes ← bytesAt v i n
  return BitVec.ofNat (8 * n) (podOfBytes bytes)

/-! ## The alias entry -/

/-- `parse_tx_extra_alias_entry`: the verdict, the alias as filled in so far,
and the length of the whole entry. -/
def parseTxExtraAliasEntry (extra : Blob) (start : Nat) (alinfo : AliasInfo) :
    Except Exn (Bool × AliasInfo × Nat) := do
  if extra.length - 1 - start < 32 * 2 + 1 then return (false, alinfo, 0)
  let aliasFlags ← byteAt extra (start + 1)
  let aliasNameLen ← byteAt extra (start + 2)
  if extra.length - 1 - (start + 2) < aliasNameLen.toNat + 32 * 2 then
    return (false, alinfo, 0)
  let name ← bytesAt extra (start + 3) aliasNameLen.toNat
  let i := start + 3 + aliasNameLen.toNat
  let spendKey ← podAt 32 extra i
  let viewKey ← podAt 32 extra (i + 32)
  let i := i + 64
  let alinfo :=
    { alinfo with
      mAlias := name
      mAddress := { mSpendPublicKey := spendKey, mViewPublicKey := viewKey } }
  let withTrack := aliasFlags &&& txExtraTagAliasFlagsAddrWithTrack ≠ 0
  if withTrack ∧ extra.length - i < 32 then return (false, alinfo, 0)
  let tracking ← if withTrack then podAt 32 extra i else pure alinfo.mViewKey
  let alinfo := { alinfo with mViewKey := tracking }
  let i := if withTrack then i + 32 else i
  let commentLen ← byteAt extra i
  if commentLen ≠ 0 ∧ extra.length - i < commentLen.toNat then return (false, alinfo, 0)
  let comment ← bytesAt extra (i + 1) commentLen.toNat
  let alinfo :=
    if commentLen ≠ 0 then { alinfo with mTextComment := comment } else alinfo
  let i := i + commentLen.toNat + 1
  let opUpdate := aliasFlags &&& txExtraTagAliasFlagsOpUpdate ≠ 0
  if opUpdate ∧ extra.length - i < 32 then return (false, alinfo, 0)
  let sign ← if opUpdate then podAt 64 extra i else pure alinfo.mSign
  let alinfo := { alinfo with mSign := sign }
  let i := if opUpdate then i + 64 else i
  return (true, alinfo, i - start)

/-- `make_tx_extra_alias_entry(buff, alinfo, true)`: the bytes an alias update
signs. Left empty when the source refuses to build them. -/
def makeTxExtraAliasEntryToSign (alinfo : AliasInfo) : Blob :=
  if alinfo.mAlias.length = 0 ∨ 255 < alinfo.mAlias.length ∨ 255 < alinfo.mTextComment.length then
    []
  else
    let withTrack := alinfo.mViewKey ≠ 0
    [txExtraTagAlias, if withTrack then txExtraTagAliasFlagsAddrWithTrack else 0,
      UInt8.ofNat alinfo.mAlias.length]
      ++ alinfo.mAlias
      ++ bytesOfPod 32 alinfo.mAddress.mSpendPublicKey.toNat
      ++ bytesOfPod 32 alinfo.mAddress.mViewPublicKey.toNat
      ++ (if withTrack then bytesOfPod 32 alinfo.mViewKey.toNat else [])
      ++ [UInt8.ofNat alinfo.mTextComment.length]
      ++ alinfo.mTextComment

/-! ## The walk over the whole field -/

def AliasInfo.empty : AliasInfo where
  mAddress := { mSpendPublicKey := 0, mViewPublicKey := 0 }
  mViewKey := 0
  mSign := nullSig
  mTextComment := []
  mAlias := []

def TxExtraInfo.empty : TxExtraInfo where
  mTxPubKey := nullPkey
  mAlias := AliasInfo.empty
  mUserDataBlob := []

/-- The locals of `parse_and_validate_tx_extra`'s loop. -/
structure ExtraWalk where
  i : Nat
  paddingStarted : Bool
  txExtraTagPubkeyFound : Bool
  txExtraUserDataFound : Bool
  txAliasFound : Bool
  info : TxExtraInfo

def ExtraWalk.start : ExtraWalk where
  i := 0
  paddingStarted := false
  txExtraTagPubkeyFound := false
  txExtraUserDataFound := false
  txAliasFound := false
  info := TxExtraInfo.empty

/-- One iteration of the loop; `false` is the source's `return false`. -/
def extraStep (extra : Blob) (w : ExtraWalk) : Except Exn (Bool × ExtraWalk) := do
  let tag ← byteAt extra w.i
  if w.paddingStarted then
    if tag ≠ 0 then return (false, w)
    return (true, { w with i := w.i + 1 })
  else if tag = txExtraTagPubkey then
    if extra.length - 1 - w.i < 32 ∨ w.txExtraTagPubkeyFound then return (false, w)
    let key ← podAt 32 extra (w.i + 1)
    return (true, { w with
      i := w.i + 33
      txExtraTagPubkeyFound := true
      info := { w.info with mTxPubKey := key } })
  else if tag = txExtraTagUserData then
    if w.txExtraUserDataFound ∨ extra.length - 1 - w.i < 1 then return (false, w)
    let len ← byteAt extra (w.i + 1)
    if extra.length - 1 - (w.i + 1) < len.toNat then return (false, w)
    let data ← bytesAt extra (w.i + 2) len.toNat
    return (true, { w with
      i := w.i + 2 + len.toNat
      txExtraUserDataFound := true
      info := { w.info with
        mUserDataBlob := if len ≠ 0 then data else w.info.mUserDataBlob } })
  else if tag = txExtraTagAlias then
    if w.txAliasFound then return (false, w)
    let (ok, al, len) ← parseTxExtraAliasEntry extra w.i w.info.mAlias
    let info := { w.info with mAlias := al }
    if ¬ ok then return (false, { w with info })
    return (true, { w with i := w.i + len, txAliasFound := true, info })
  else if tag = 0 then
    return (true, { w with paddingStarted := true })
  else
    return (true, { w with i := w.i + 1 })

/-- `for(size_t i = 0; i != tx.extra.size();)`. Every iteration but the one
that starts the padding moves `i`, so `2 * size + 2` of them are enough; a
walk that has jumped over the end reads outside the vector in its next step. -/
def extraLoop (extra : Blob) : Nat → ExtraWalk → Except Exn (Bool × ExtraWalk)
  | 0, _ => .error .endless
  | fuel + 1, w =>
    if w.i = extra.length then .ok (true, w)
    else
      match extraStep extra w with
      | .ok (true, w') => extraLoop extra fuel w'
      | r => r

/-- `check_make_alias_tx`: an ordinary transaction that carries an alias pays
the alias fee and sends at least one coin to the donations account. -/
def checkMakeAliasTx (env : Env) (tx : TransactionPrefix) (e : TxExtraInfo) : Bool :=
  if isCoinbase tx ∨ e.mAlias.mAlias = [] then true
  else if getTxFee tx < makeAliasMinimumFee then false
  else if e.mTxPubKey = nullPkey then false
  else
    tx.vout.zipIdx.any fun (o, i) =>
      match o.target with
      | .toKey key _ =>
        env.isOutToAcc env.donationsAccount key e.mTxPubKey i && decide (o.amount ≥ coin)
      | _ => false

/-- `parse_and_validate_tx_extra(tx, extra)`: the verdict and the fields read
before it was reached. -/
def parseAndValidateTxExtra (env : Env) (tx : TransactionPrefix) :
    Except Exn (Bool × TxExtraInfo) := do
  let (ok, w) ← extraLoop tx.extra (2 * tx.extra.length + 2) ExtraWalk.start
  if ¬ ok then return (false, w.info)
  return (checkMakeAliasTx env tx w.info, w.info)

end DarknetSpace
