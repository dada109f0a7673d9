import DarknetSpace.Core.TemplateLoop
import DarknetSpace.Format.HexString
import DarknetSpace.Format.RoundTrip
import DarknetSpace.Miner.Miner

/-!
# A template for a pool (`core_rpc_server::on_getblocktemplate`)

A request reserves bytes in the coinbase. They go into the user data as zeros,
behind the version of the program and one more zero, and the response says where
in the block they are. The place is found by looking for the version.

The length of the user data is a single byte, and the version counts too: of the
255 bytes that a request may ask for, `254 - strlen(PROJECT_VERSION_LONG)` can be
had.

Main result: `reserved_area_iff`, for every request. The version could be found among
the bytes of the coinbase's key, which stands in front of it; the condition names that,
and the size.
-/

namespace DarknetSpace

/-! ## The call -/

/-- `PROJECT_VERSION`, which is 0.7.5. -/
def projectVersion : Blob := [48, 46, 55, 46, 53]

/-- `PROJECT_VERSION_BUILD_NO_STR`, which is 6. -/
def projectVersionBuildNoStr : Blob := [54]

/-- `PROJECT_VERSION_LONG`; the build puts the commit in. -/
def projectVersionLong (buildCommitId : Blob) : Blob :=
  projectVersion ++ 46 :: projectVersionBuildNoStr ++ 40 :: buildCommitId ++ [41]

/-- `alias_rpc_details`. -/
structure AliasRpcDetails where
  aliasName : Blob
  address : Blob
  trackingKey : Blob
  comment : Blob

/-- `COMMAND_RPC_GETBLOCKTEMPLATE::request`; `dev_bounties_vote` may be missing or
of another type. -/
structure BlockTemplateRequest where
  reserveSize : UInt64
  walletAddress : Blob
  aliasDetails : AliasRpcDetails
  devBountiesVote : Option Bool

/-- `COMMAND_RPC_GETBLOCKTEMPLATE::response`. -/
structure BlockTemplateResponse where
  difficulty : UInt64
  height : Nat
  reservedOffset : Nat
  blocktemplateBlob : Blob
  status : String

/-- `epee::json_rpc::error`. -/
structure RpcError where
  code : Int
  message : String
  deriving DecidableEq

namespace RpcError

/-- `CORE_RPC_ERROR_CODE_CORE_BUSY`. -/
def coreBusy : RpcError := ⟨-9, "Core is busy"⟩

/-- `CORE_RPC_ERROR_CODE_TOO_BIG_RESERVE_SIZE`. -/
def tooBigReserveSize : RpcError := ⟨-3, "To big reserved size, maximum 255"⟩

/-- `CORE_RPC_ERROR_CODE_WRONG_WALLET_ADDRESS`. -/
def wrongWalletAddress : RpcError := ⟨-4, "Failed to parse wallet address"⟩

/-- `CORE_RPC_ERROR_CODE_INTERNAL_ERROR`. -/
def internalError : RpcError := ⟨-5, "Internal error: failed to create block template"⟩
def invalidAliasName : RpcError := ⟨-10, "Invalid alias name"⟩
def invalidAliasAddress : RpcError := ⟨-11, "Invalid alias address"⟩
def aliasCommentToLong : RpcError := ⟨-12, "Alias comment is too long"⟩
def invalidTrackingKey : RpcError := ⟨-13, "Invalid tracking key"⟩

end RpcError

/-- The alias a request wants to register. -/
def requestedAlias (addressFromStr : Blob → Option AccountPublicAddress) (d : AliasRpcDetails) :
    Except RpcError AliasInfo :=
  if d.aliasName = [] then .ok AliasInfo.empty
  else if ¬ validateAliasName d.aliasName then .error .invalidAliasName
  else
    match addressFromStr d.address with
    | none => .error .invalidAliasAddress
    | some mAddress =>
      if 255 < d.comment.length then .error .aliasCommentToLong
      else
        let ai : AliasInfo :=
          { AliasInfo.empty with mAddress, mAlias := d.aliasName, mTextComment := d.comment }
        if d.trackingKey = [] then .ok ai
        else
          match (parseHexstrToBinbuff d.trackingKey).bind hashOfBytes with
          | none => .error .invalidTrackingKey
          | some mViewKey => .ok { ai with mViewKey }

/-- The checks in front of `get_block_template`. -/
def checkedRequest (addressFromStr : Blob → Option AccountPublicAddress) (coreReady : Bool)
    (req : BlockTemplateRequest) : Except RpcError (AccountPublicAddress × AliasInfo) :=
  if ¬ coreReady then .error .coreBusy
  else if 255 < req.reserveSize then .error .tooBigReserveSize
  else if req.walletAddress = [] then .error .wrongWalletAddress
  else
    match addressFromStr req.walletAddress with
    | none => .error .wrongWalletAddress
    | some acc => (requestedAlias addressFromStr req.aliasDetails).map fun ai => (acc, ai)

/-- `create_block_template` with an alias. -/
def createBlockTemplateWithAlias (env : Env) (kd : KeyDerivation) (now : Nat) (n : Node)
    (txs : List (Hash × TxDetails)) (minerAddress : AccountPublicAddress) (exNonce : Blob)
    (voteForDonation : Bool) (ai : AliasInfo) (keys : Nat → SecretKey) :
    Except Exn (Option Block) :=
  let height := n.chain.mBlocks.length
  let medianSize := n.chain.mCurrentBlockCumulSzLimit / 2
  if Storage.getDifficultyForNextBlock n.chain.mBlocks = 0 then .ok none
  else
    match n.chain.mBlocks.getLast? with
    | none => .error .undefinedBehaviour
    | some last =>
      match n.pool.fillBlockTemplate env now n.chain txs medianSize last.alreadyGeneratedCoins
          height with
      | .error e => .error e
      | .ok none => .ok none
      | .ok (some filled) =>
        let t : AliasTemplate :=
          { height, medianSize, alreadyGeneratedCoins := last.alreadyGeneratedCoins,
            fee := filled.fee, txsSize := filled.totalSize, minerAddress, exNonce, ai }
        match t.coinbase env kd keys with
        | none => .ok none
        | some minerTx =>
          .ok (some
            { majorVersion := UInt8.ofNat currentBlockMajorVersion
              minorVersion := 0
              timestamp := UInt64.ofNat now
              prevId := n.chain.getTopBlockId env
              nonce := 0
              flags := if voteForDonation then 0 else blockFlagsSuppressDonation
              minerTx
              txHashes := filled.txHashes })

/-- `std::string::find`. -/
def findBytes (pat blob : Blob) : Option Nat :=
  (List.range (blob.length + 1)).find? fun pos => pat.isPrefixOf (blob.drop pos)

/-- `blob_reserve`. -/
def blobReserve (buildCommitId : Blob) (reserveSize : Nat) : Blob :=
  projectVersionLong buildCommitId ++ List.replicate (1 + reserveSize) 0

/-- What a node is asked for a template: its clock, its pool in order, and the
keys it comes up with. -/
structure TemplateCall where
  env : Env
  kd : KeyDerivation
  now : Nat
  node : Node
  txs : List (Hash × TxDetails)
  keys : Nat → SecretKey
  buildCommitId : Blob
  addressFromStr : Blob → Option AccountPublicAddress
  coreReady : Bool

/-- `m_core.get_block_template(b, acc, dt, res.height, blob_reserve, donations_vote, ai)`. -/
def TemplateCall.getBlockTemplate (c : TemplateCall) (req : BlockTemplateRequest)
    (acc : AccountPublicAddress) (ai : AliasInfo) : Except Exn (Option Block) :=
  createBlockTemplateWithAlias c.env c.kd c.now c.node c.txs acc
    (blobReserve c.buildCommitId req.reserveSize.toNat) (req.devBountiesVote.getD true) ai c.keys

/-- `on_getblocktemplate` behind its checks. -/
def TemplateCall.respond (c : TemplateCall) (req : BlockTemplateRequest) (b : Block) :
    Except RpcError BlockTemplateResponse :=
  let blockBlob := blockToBlob b
  match findBytes (projectVersionLong c.buildCommitId) blockBlob with
  | none => .error .internalError
  | some pos =>
    let reservedOffset := pos + (projectVersionLong c.buildCommitId).length + 1
    if reservedOffset + req.reserveSize.toNat > blockBlob.length then .error .internalError
    else
      .ok
        { difficulty := UInt64.ofNat (Storage.getDifficultyForNextBlock c.node.chain.mBlocks)
          height := c.node.chain.mBlocks.length
          reservedOffset
          blocktemplateBlob := buffToHexNodelimer blockBlob
          status := "OK" }

/-- `on_getblocktemplate`. -/
def TemplateCall.onGetblocktemplate (c : TemplateCall) (req : BlockTemplateRequest) :
    Except Exn (Except RpcError BlockTemplateResponse) :=
  match checkedRequest c.addressFromStr c.coreReady req with
  | .error e => .ok (.error e)
  | .ok (acc, ai) =>
    match c.getBlockTemplate req acc ai with
    | .error e => .error e
    | .ok none => .ok (.error .internalError)
    | .ok (some b) => .ok (c.respond req b)

/-- Without an alias this is the template a miner gets. -/
theorem createBlockTemplateWithAlias_of_no_alias {ai : AliasInfo} (hnone : ai.mAlias = [])
    (env : Env) (kd : KeyDerivation) (now : Nat) (n : Node) (txs : List (Hash × TxDetails))
    (minerAddress : AccountPublicAddress) (exNonce : Blob) (voteForDonation : Bool)
    (keys : Nat → SecretKey) :
    createBlockTemplateWithAlias env kd now n txs minerAddress exNonce voteForDonation ai keys =
      createBlockTemplate env kd now n txs minerAddress exNonce voteForDonation keys := by
  have hcoinbase : ∀ t : TemplateParams,
      (AliasTemplate.mk t ai).coinbase env kd keys = t.coinbase env kd keys := by
    intro t
    exact AliasTemplate.coinbase_of_no_alias hnone env kd keys
  unfold createBlockTemplateWithAlias
  simp only [hcoinbase]
  rfl

/-! ## Around the coinbase's extra field -/

/-- The bytes of a block in front of the coinbase's extra field. -/
def blockHead (b : Block) : Blob :=
  Archive.blockHeader.encode b.toBlockHeader ++
    (Archive.version.encode b.minerTx.version ++ (Archive.varint64.encode b.minerTx.unlockTime ++
      ((Archive.vec Archive.txin Archive.txin_pos).encode b.minerTx.vin ++
        ((Archive.vec Archive.txOut Archive.txOut_pos).encode b.minerTx.vout ++
          writeVarint b.minerTx.extra.length))))

/-- And those behind it. -/
def blockTail (b : Block) : Blob :=
  (Archive.vec Archive.ringSignature Archive.vec_pos).encode b.minerTx.signatures ++
    Archive.hashes.encode b.txHashes

/-- Bytes are written as they are. -/
theorem writeAll_byte (bytes : Blob) : Codec.byte.writeAll bytes = ⟨bytes, true⟩ := by
  induction bytes with
  | nil => rfl
  | cons b rest ih =>
    unfold Codec.writeAll
    rw [ih]
    rfl

/-- A byte vector is its length and its bytes. -/
theorem bytes_encode {bytes : Blob} (h : FitsVector bytes) :
    Archive.bytes.encode bytes = writeVarint bytes.length ++ bytes := by
  have hcount : ((varint 64 (Nat.le_refl 64)).write bytes.length).ok = true := decide_eq_true h
  show (((varint 64 (Nat.le_refl 64)).write bytes.length).andThen
    (Codec.byte.writeAll bytes)).bytes = _
  rw [ByteOutput.andThen_of_ok hcount, writeAll_byte]
  rfl

/-- The blob of a block, cut where the extra field of its coinbase begins and ends. -/
theorem blockToBlob_eq {b : Block} (hcurrent : b.Current) (hminer : b.minerTx.Current)
    (h : b.Sized) : blockToBlob b = blockHead b ++ b.minerTx.extra ++ blockTail b := by
  have hvin : ((Archive.vec Archive.txin Archive.txin_pos).write b.minerTx.vin).ok = true :=
    Archive.vec_ok h.minerTx.vin (fun i hi => Archive.txin_ok (h.minerTx.input i hi))
  have hvout : ((Archive.vec Archive.txOut Archive.txOut_pos).write b.minerTx.vout).ok = true :=
    Archive.vec_ok h.minerTx.vout (fun o ho => Archive.txOut_ok (h.minerTx.output o ho))
  have hprefix : Archive.transactionPrefix.encode b.minerTx.toTransactionPrefix =
      Archive.version.encode b.minerTx.version ++ (Archive.varint64.encode b.minerTx.unlockTime ++
        ((Archive.vec Archive.txin Archive.txin_pos).encode b.minerTx.vin ++
          ((Archive.vec Archive.txOut Archive.txOut_pos).encode b.minerTx.vout ++
            (writeVarint b.minerTx.extra.length ++ b.minerTx.extra)))) := by
    refine (Codec.seq_encode (Archive.version_ok.2 hminer) _ _).trans ?_
    rw [Codec.seq_encode (Archive.varint64_ok _), Codec.seq_encode hvin, Codec.seq_encode hvout,
      bytes_encode h.minerTx.extra]
  have htx : Archive.transaction.encode b.minerTx =
      Archive.transactionPrefix.encode b.minerTx.toTransactionPrefix ++
        (Archive.vec Archive.ringSignature Archive.vec_pos).encode b.minerTx.signatures :=
    Codec.seq_encode (Archive.transactionPrefix_ok hminer h.minerTx.toSized) _ _
  have hblock : blockToBlob b = Archive.blockHeader.encode b.toBlockHeader ++
      (Archive.transaction.encode b.minerTx ++ Archive.hashes.encode b.txHashes) := by
    refine (Codec.seq_encode (Archive.blockHeader_ok hcurrent) _ _).trans ?_
    rw [Codec.seq_encode (Archive.transaction_ok hminer h.minerTx)]
  rw [hblock, htx, hprefix]
  unfold blockHead blockTail
  simp only [List.append_assoc]

/-! ## The block of a template -/

theorem FitsVector.of_le {α : Type} {xs : List α} {n : Nat} (h : xs.length ≤ n) (hn : n < 2 ^ 64) :
    FitsVector xs := Nat.lt_of_le_of_lt h hn

/-- The outputs of a coinbase are `txout_to_key`. -/
theorem minerOuts_toKey {env : Env} {kd : KeyDerivation} {txkey : SecretKey}
    {miner : AccountPublicAddress} {amounts : List UInt64} {donations royalty : UInt64}
    {vout : List TxOut} (h : minerOuts env kd txkey miner amounts donations royalty = some vout) :
    ∀ o ∈ vout, ∃ key, o.target = .toKey key 0 := by
  have hkeys : ∀ {dest no as outs}, constructOuts kd dest txkey no as = some outs →
      ∀ o ∈ outs, ∃ key, o.target = .toKey key 0 := by
    intro dest no as outs houts o ho
    obtain ⟨i, hi⟩ := List.mem_iff_getElem?.1 ho
    obtain ⟨key, -, htarget⟩ := constructOuts_key houts hi
    exact ⟨key, htarget⟩
  unfold minerOuts at h
  split at h
  · cases h
  · next outs houts =>
    split at h
    · cases h
    · next donationOuts hdonations =>
      obtain ⟨royaltyOuts, hroyalty, rfl⟩ := Option.map_eq_some_iff.1 h
      intro o ho
      rcases List.mem_append.1 ho with ho | ho
      · rcases List.mem_append.1 ho with ho | ho
        · exact hkeys houts o ho
        · exact hkeys hdonations o ho
      · exact hkeys hroyalty o ho

/-- A template's coinbase is one the archive writes to its end. -/
theorem AliasTemplate.minerTx_sized {env : Env} {kd : KeyDerivation} {t : AliasTemplate}
    {size k : Nat} {txkey : SecretKey} {tx : Transaction}
    (hsize : env.prefixBlobsize = serializedPrefixSize)
    (h : t.minerTx env kd size txkey = some tx) (hk : k ≤ 830) :
    (padExtra tx k).Current ∧ (padExtra tx k).Sized := by
  have hbuilt := minerTx_some hsize h
  have hlong := hbuilt.extraLength_le
  obtain ⟨tx₀, reward, entry, hm, hversion, hsigs, halias, hextra⟩ := minerTx_parts h
  have hvin : (padExtra tx k).vin = [.gen (UInt64.ofNat t.height)] := by
    rw [hextra]
    exact hm.vin
  have hvout : (padExtra tx k).vout = tx₀.vout := by rw [hextra]; rfl
  have hsigs' : (padExtra tx k).signatures = [] := by rw [hextra]; exact hsigs
  have houts : tx₀.vout.length ≤ 13 := by
    have hlen := t.length_outAmounts reward
    unfold outAmounts at hlen
    rwa [← minerOuts_amounts hm.vout, List.length_map] at hlen
  have hlen : (padExtra tx k).extra.length = t.extraLength + k := by
    rw [← length_extra hm.extra halias, hextra]
    show (tx₀.extra ++ entry ++ List.replicate k 0).length = _
    rw [List.length_append, List.length_replicate]
  refine ⟨?_, ⟨⟨?_, ?_, ?_, ?_, ?_⟩, ?_, ?_⟩⟩
  · show (padExtra tx k).version.toNat ≤ currentTransactionVersion
    rw [hextra]
    show tx₀.version.toNat ≤ currentTransactionVersion
    rw [hversion]
    exact Nat.le_refl 1
  · rw [hvin]
    exact FitsVector.of_le (Nat.le_refl 1) (by decide)
  · rw [hvout]
    exact FitsVector.of_le houts (by decide)
  · exact FitsVector.of_le (show _ ≤ 1794 by omega) (by decide)
  · intro i hi
    rw [hvin] at hi
    rw [List.mem_singleton.1 hi]
    trivial
  · intro o ho
    rw [hvout] at ho
    obtain ⟨key, htarget⟩ := minerOuts_toKey hm.vout o ho
    rw [htarget]
    trivial
  · rw [hsigs']
    exact FitsVector.of_le (Nat.le_refl 0) (by decide)
  · intro sigs hin
    rw [hsigs'] at hin
    cases hin

/-- The user data of a coinbase stands behind its public key. -/
def UserData (extra key nonce rest : Blob) : Prop :=
  key.length = 32 ∧ nonce.length ≤ 255 ∧
    extra = txExtraTagPubkey :: key ++
      (txExtraTagUserData :: UInt8.ofNat nonce.length :: nonce ++ rest)

/-- What a template has in its block. -/
structure TemplateBlock (b : Block) (exNonce : Blob) : Prop where
  current : b.Current
  minerTx : b.minerTx.Current
  sized : b.Sized
  userData : ∃ key rest, UserData b.minerTx.extra key exNonce rest

/-- What a template that was made consists of. -/
theorem createBlockTemplateWithAlias_some {env : Env} {kd : KeyDerivation} {now : Nat} {n : Node}
    {txs : List (Hash × TxDetails)} {miner : AccountPublicAddress} {exNonce : Blob} {vote : Bool}
    {ai : AliasInfo} {keys : Nat → SecretKey} {b : Block}
    (hsize : env.prefixBlobsize = serializedPrefixSize) (htxs : FitsVector txs)
    (hnonce : exNonce ≠ [])
    (h : createBlockTemplateWithAlias env kd now n txs miner exNonce vote ai keys =
      .ok (some b)) : TemplateBlock b exNonce := by
  unfold createBlockTemplateWithAlias at h
  simp only at h
  split at h
  · cases h
  · split at h
    · cases h
    · next last hlast =>
      split at h
      · cases h
      · cases h
      · next filled hfilled =>
        split at h
        · cases h
        · next minerTx hminer =>
          cases h
          obtain ⟨built, txkey, tx₀, k, hbuilt, rfl, hk⟩ :=
            AliasTemplate.coinbase_some hsize hminer
          obtain ⟨hcurrent, hsized⟩ := AliasTemplate.minerTx_sized hsize hbuilt hk
          obtain ⟨extra, entry, hextra, -, heq⟩ := (AliasTemplate.minerTx_some hsize hbuilt).extra
          obtain ⟨hshort, hfield⟩ := minerExtra_eq_some.1 hextra
          refine ⟨Nat.le_refl 1, hcurrent,
            ⟨hsized, FitsVector.of_le (TxMemoryPool.fillBlockTemplate_best hfilled) htxs⟩, ?_⟩
          refine ⟨bytesOfPod 32 (kd.pub txkey).toNat, entry ++ List.replicate k 0,
            bytesOfPod_length 32 _, hshort, ?_⟩
          show tx₀.extra ++ List.replicate k 0 = _
          unfold nonceField at hfield
          rw [if_neg hnonce] at hfield
          rw [heq, hfield, List.append_assoc, List.append_assoc]

/-! ## Finding the version -/

/-- A search finds the first place at which the pattern stands. -/
theorem findBytes_eq_some {pat blob : Blob} {pos : Nat} :
    findBytes pat blob = some pos ↔ pat <+: blob.drop pos ∧ pos ≤ blob.length ∧
      ∀ p < pos, ¬ pat <+: blob.drop p := by
  unfold findBytes
  rw [List.find?_range_eq_some]
  simp only [List.isPrefixOf_iff_prefix, List.mem_range, Bool.not_eq_true', ← Bool.not_eq_true]
  constructor
  · intro ⟨hpat, hpos, hfirst⟩
    exact ⟨hpat, by omega, hfirst⟩
  · intro ⟨hpat, hpos, hfirst⟩
    exact ⟨hpat, by omega, hfirst⟩

/-- What occurs within the middle part is a part of it. -/
theorem infix_of_inside {pat before middle behind : Blob} {p : Nat}
    (h : pat <+: (before ++ middle ++ behind).drop p) (hlow : before.length ≤ p)
    (hhigh : p + pat.length ≤ before.length + middle.length) : pat <:+: middle := by
  have hdrop : (before ++ middle ++ behind).drop p =
      middle.drop (p - before.length) ++ behind := by
    rw [List.append_assoc, List.drop_append, List.drop_eq_nil_of_le hlow, List.nil_append,
      List.drop_append_of_le_length (by omega)]
  rw [hdrop] at h
  have hpre : pat <+: middle.drop (p - before.length) := by
    refine List.prefix_of_prefix_length_le h (List.prefix_append _ _) ?_
    rw [List.length_drop]
    omega
  exact hpre.isInfix.trans (List.drop_suffix _ _).isInfix

theorem getElem?_of_occurs {pat blob : Blob} {p i : Nat} (h : pat <+: blob.drop p)
    (hi : i < pat.length) : blob[p + i]? = some pat[i] := by
  have hget := List.prefix_iff_getElem?.1 h i hi
  rwa [List.getElem?_drop] at hget

section

variable (buildCommitId : Blob)

theorem projectVersionLong_length :
    (projectVersionLong buildCommitId).length = buildCommitId.length + 9 := by
  unfold projectVersionLong projectVersion projectVersionBuildNoStr
  simp

/-- The version text has no control characters. -/
theorem projectVersionLong_printable {buildCommitId : Blob} (hcommit : ∀ ch ∈ buildCommitId, 32 ≤ ch) :
    ∀ ch ∈ projectVersionLong buildCommitId, 32 ≤ ch := by
  intro ch hch
  unfold projectVersionLong projectVersion projectVersionBuildNoStr at hch
  simp only [List.cons_append, List.nil_append, List.mem_cons,
    List.mem_append, List.not_mem_nil, or_false] at hch
  rcases hch with rfl | rfl | rfl | rfl | rfl | rfl | rfl | rfl | hch | rfl
  on_goal 9 => exact hcommit ch hch
  all_goals decide

theorem projectVersionLong_head :
    ∃ rest, projectVersionLong buildCommitId = 48 :: 46 :: rest := ⟨_, rfl⟩

end

/-- A block with the version in its coinbase. -/
structure Versioned (b : Block) (buildCommitId : Blob) (reserveSize : Nat) (key rest : Blob) :
    Prop where
  template : TemplateBlock b (blobReserve buildCommitId reserveSize)
  userData : UserData b.minerTx.extra key (blobReserve buildCommitId reserveSize) rest

namespace Versioned

variable {b : Block} {buildCommitId key rest : Blob} {reserveSize : Nat}

/-- The blob of a versioned block, with the version text in its place. -/
theorem blob_eq (h : Versioned b buildCommitId reserveSize key rest) :
    blockToBlob b = blockHead b ++ (txExtraTagPubkey :: key) ++
      (txExtraTagUserData :: UInt8.ofNat (blobReserve buildCommitId reserveSize).length ::
        (projectVersionLong buildCommitId ++ (List.replicate (1 + reserveSize) 0 ++
          (rest ++ blockTail b)))) := by
  obtain ⟨-, -, hextra⟩ := h.userData
  rw [blockToBlob_eq h.template.current h.template.minerTx h.template.sized, hextra]
  conv => lhs; unfold blobReserve
  simp only [List.append_assoc, List.cons_append]
  rfl

/-- Where the version starts. -/
def place (b : Block) : Nat := (blockHead b).length + 35

/-- The bytes in front of the version text. -/
theorem byte_at (h : Versioned b buildCommitId reserveSize key rest) :
    (blockToBlob b)[(blockHead b).length]? = some txExtraTagPubkey ∧
      (blockToBlob b)[(blockHead b).length + 33]? = some txExtraTagUserData ∧
      (blockToBlob b)[(blockHead b).length + 34]? =
        some (UInt8.ofNat (blobReserve buildCommitId reserveSize).length) ∧
      (blockToBlob b).drop (place b) = projectVersionLong buildCommitId ++
        (List.replicate (1 + reserveSize) 0 ++ (rest ++ blockTail b)) := by
  have hkey : key.length = 32 := h.userData.1
  have hlen : (blockHead b ++ (txExtraTagPubkey :: key)).length = (blockHead b).length + 33 := by
    rw [List.length_append, List.length_cons, hkey]
  rw [h.blob_eq]
  refine ⟨?_, ?_, ?_, ?_⟩
  · rw [List.append_assoc, List.getElem?_append_right (Nat.le_refl _), Nat.sub_self]
    rfl
  · rw [List.getElem?_append_right (by omega), hlen, Nat.sub_self]
    rfl
  · rw [List.getElem?_append_right (by omega), hlen,
      show (blockHead b).length + 34 - ((blockHead b).length + 33) = 1 by omega]
    rfl
  · unfold place
    rw [List.drop_append, List.drop_eq_nil_of_le (by omega), List.nil_append, hlen,
      show (blockHead b).length + 35 - ((blockHead b).length + 33) = 2 by omega]
    rfl

theorem occurs (h : Versioned b buildCommitId reserveSize key rest) :
    projectVersionLong buildCommitId <+: (blockToBlob b).drop (place b) := by
  rw [h.byte_at.2.2.2]
  exact List.prefix_append _ _

end Versioned

namespace Versioned

variable {b : Block} {buildCommitId key rest : Blob} {reserveSize : Nat}

/-- No byte of the version is as small as a tag. -/
theorem apart_of_tag (hcommit : ∀ ch ∈ buildCommitId, 32 ≤ ch) {blob : Blob} {p q : Nat}
    {tag : UInt8} (hocc : projectVersionLong buildCommitId <+: blob.drop p)
    (htag : blob[q]? = some tag) (hsmall : tag < 32) :
    q < p ∨ p + (projectVersionLong buildCommitId).length ≤ q := by
  by_contra hin
  rw [not_or] at hin
  have hget := getElem?_of_occurs hocc
    (show q - p < (projectVersionLong buildCommitId).length by omega)
  rw [show p + (q - p) = q by omega, htag] at hget
  have hlarge := projectVersionLong_printable hcommit _
    (List.getElem_mem (show q - p < (projectVersionLong buildCommitId).length by omega))
  rw [← Option.some.inj hget, UInt8.le_iff_toNat_le] at hlarge
  rw [UInt8.lt_iff_toNat_lt] at hsmall
  omega

/-- One byte in front of its place its second byte would be its first one again. -/
theorem not_one_before (h : Versioned b buildCommitId reserveSize key rest) {p : Nat}
    (hp : p + 1 = place b) : ¬ projectVersionLong buildCommitId <+: (blockToBlob b).drop p := by
  intro hocc
  obtain ⟨tail, hversion⟩ := projectVersionLong_head buildCommitId
  have hlong := projectVersionLong_length buildCommitId
  have hsecond := getElem?_of_occurs hocc (i := 1) (by omega)
  have hown := getElem?_of_occurs h.occurs (i := 0) (by omega)
  rw [hp, ← Nat.add_zero (place b), hown] at hsecond
  simp only [hversion, List.getElem_cons_zero, List.getElem_cons_succ] at hsecond
  cases hsecond

/-- In front of its own place the version can only occur in the public key. -/
theorem earlier_iff (h : Versioned b buildCommitId reserveSize key rest)
    (hcommit : ∀ ch ∈ buildCommitId, 32 ≤ ch)
    (hhead : ¬ projectVersionLong buildCommitId <:+: blockHead b) :
    (∃ p < place b, projectVersionLong buildCommitId <+: (blockToBlob b).drop p) ↔
      projectVersionLong buildCommitId <:+: key := by
  obtain ⟨hone, htwo, -, -⟩ := h.byte_at
  have hkey : key.length = 32 := h.userData.1
  have hlong := projectVersionLong_length buildCommitId
  constructor
  · rintro ⟨p, hp, hocc⟩
    unfold place at hp
    rcases apart_of_tag hcommit hocc hone (by decide) with hbehind | hbefore
    · rcases apart_of_tag hcommit hocc htwo (by decide) with hlast | hinside
      · exact absurd hocc (h.not_one_before (by unfold place; omega))
      · have hblob : blockToBlob b = (blockHead b ++ [txExtraTagPubkey]) ++ key ++
            (txExtraTagUserData :: UInt8.ofNat (blobReserve buildCommitId reserveSize).length ::
              (projectVersionLong buildCommitId ++ (List.replicate (1 + reserveSize) 0 ++
                (rest ++ blockTail b)))) := by
          rw [h.blob_eq]
          simp only [List.append_assoc, List.cons_append, List.nil_append]
        rw [hblob] at hocc
        refine infix_of_inside hocc ?_ ?_
        · rw [List.length_append, List.length_singleton]
          omega
        · rw [List.length_append, List.length_singleton]
          omega
    · rw [h.blob_eq, List.append_assoc] at hocc
      refine absurd (@infix_of_inside _ [] (blockHead b) _ p hocc (Nat.zero_le p) ?_) hhead
      rw [List.length_nil]
      omega
  · rintro ⟨s, t, rfl⟩
    rw [List.length_append, List.length_append] at hkey
    refine ⟨(blockHead b).length + 1 + s.length, by unfold place; omega, ?_⟩
    have hblob : blockToBlob b = (blockHead b ++ txExtraTagPubkey :: s) ++
        (projectVersionLong buildCommitId ++ (t ++ (txExtraTagUserData ::
          UInt8.ofNat (blobReserve buildCommitId reserveSize).length ::
            (projectVersionLong buildCommitId ++ (List.replicate (1 + reserveSize) 0 ++
              (rest ++ blockTail b)))))) := by
      rw [h.blob_eq]
      simp only [List.append_assoc, List.cons_append]
    rw [hblob, List.drop_left' (by rw [List.length_append, List.length_cons]; omega)]
    exact List.prefix_append _ _

/-- The reserved bytes stand behind it, within the blob. -/
theorem blob_length (h : Versioned b buildCommitId reserveSize key rest) :
    place b + (projectVersionLong buildCommitId).length + 1 + reserveSize ≤
      (blockToBlob b).length := by
  have hkey : key.length = 32 := h.userData.1
  rw [h.blob_eq]
  unfold place
  simp only [List.length_append, List.length_cons, List.length_replicate, hkey]
  omega

/-- The version is found at its place or earlier. -/
theorem found (h : Versioned b buildCommitId reserveSize key rest) :
    ∃ pos ≤ place b, findBytes (projectVersionLong buildCommitId) (blockToBlob b) = some pos ∧
      (pos < place b ↔
        ∃ p < place b, projectVersionLong buildCommitId <+: (blockToBlob b).drop p) := by
  classical
  have hex : ∃ p, projectVersionLong buildCommitId <+: (blockToBlob b).drop p :=
    ⟨_, h.occurs⟩
  have hle : Nat.find hex ≤ place b := Nat.find_min' hex h.occurs
  have hlen := h.blob_length
  refine ⟨Nat.find hex, hle, findBytes_eq_some.2 ⟨Nat.find_spec hex, by omega,
    fun p hp => Nat.find_min hex hp⟩, ?_⟩
  constructor
  · intro hlt
    exact ⟨_, hlt, Nat.find_spec hex⟩
  · rintro ⟨p, hp, hocc⟩
    exact Nat.lt_of_le_of_lt (Nat.find_min' hex hocc) hp

end Versioned

/-! ## The reserved area -/

/-- `data` put over the bytes from `pos` on. -/
def overwriteAt (blob : Blob) (pos : Nat) (data : Blob) : Blob :=
  blob.take pos ++ data ++ blob.drop (pos + data.length)

/-- The area is zeros within the user data, and whatever is put over them, the
block is the same but for those bytes of user data. -/
structure ReservedArea (b : Block) (blob : Blob) (offset reserveSize : Nat) : Prop where
  zeros : ∃ key nonce rest, UserData b.minerTx.extra key nonce rest ∧
    ∀ i < reserveSize, blob[offset + i]? = some 0 ∧ (blockHead b).length + 33 ≤ offset + i ∧
      offset + i < (blockHead b).length + 33 + (2 + nonce.length)
  overwritten : ∀ data : Blob, data.length = reserveSize →
    parseAndValidateBlockFromBlob (overwriteAt blob offset data) =
      some { b with minerTx := { b.minerTx with
        extra := overwriteAt b.minerTx.extra (offset - (blockHead b).length) data } }

/-- The call succeeds, and the area it reports is the one that was asked for. -/
def TemplateCall.ReservedAsAsked (c : TemplateCall) (req : BlockTemplateRequest) : Prop :=
  ∃ res acc ai b blob, c.onGetblocktemplate req = .ok (.ok res) ∧
    checkedRequest c.addressFromStr c.coreReady req = .ok (acc, ai) ∧
    c.getBlockTemplate req acc ai = .ok (some b) ∧
    parseHexstrToBinbuff res.blocktemplateBlob = some blob ∧
    ReservedArea b blob res.reservedOffset req.reserveSize.toNat

theorem overwriteAt_nil (blob : Blob) (pos : Nat) : overwriteAt blob pos [] = blob := by
  unfold overwriteAt
  rw [List.append_nil, List.length_nil, Nat.add_zero, List.take_append_drop]

theorem overwriteAt_middle {before middle behind data : Blob} (hlen : data.length = middle.length) :
    overwriteAt (before ++ middle ++ behind) before.length data = before ++ data ++ behind := by
  unfold overwriteAt
  rw [hlen, ← List.length_append, List.drop_left, List.append_assoc before middle,
    List.take_left]

namespace Versioned

variable {b : Block} {buildCommitId key rest : Blob} {reserveSize : Nat}

/-- With other bytes in the extra field, as many as before, the block is written
and read the same way. -/
theorem parse_with_extra (h : TemplateBlock b exNonce) {extra : Blob}
    (hlen : extra.length = b.minerTx.extra.length) :
    parseAndValidateBlockFromBlob (blockHead b ++ extra ++ blockTail b) =
      some { b with minerTx := { b.minerTx with extra } } := by
  obtain ⟨⟨⟨hvin, hvout, hextra, hinput, houtput⟩, hsigs, hring⟩, hhashes⟩ := h.sized
  have hfits : FitsVector extra := by
    unfold FitsVector at hextra ⊢
    omega
  have hsized : ({ b with minerTx := { b.minerTx with extra } } : Block).Sized :=
    ⟨⟨⟨hvin, hvout, hfits, hinput, houtput⟩, hsigs, hring⟩, hhashes⟩
  have hblob := @blockToBlob_eq { b with minerTx := { b.minerTx with extra } } h.current h.minerTx
    hsized
  have hhead : blockHead { b with minerTx := { b.minerTx with extra } } = blockHead b := by
    unfold blockHead
    rw [← hlen]
  rw [hhead] at hblob
  have hparse := Codec.decode_encode Archive.block
    (Archive.block_ok (b := { b with minerTx := { b.minerTx with extra } }) h.current h.minerTx
      hsized)
  rw [← hparse]
  exact congrArg _ hblob.symm

/-- Nothing is reserved, so nothing is wrong with any offset. -/
theorem reservedArea_zero (h : Versioned b buildCommitId 0 key rest) (offset : Nat) :
    ReservedArea b (blockToBlob b) offset 0 := by
  refine ⟨⟨key, _, rest, h.userData, fun i hi => absurd hi (Nat.not_lt_zero i)⟩, ?_⟩
  intro data hdata
  rw [List.eq_nil_of_length_eq_zero hdata, overwriteAt_nil, overwriteAt_nil,
    blockToBlob_eq h.template.current h.template.minerTx h.template.sized]
  exact parse_with_extra h.template rfl

/-- At the place of the version the area is as it was asked for. -/
theorem reservedArea (h : Versioned b buildCommitId reserveSize key rest) :
    ReservedArea b (blockToBlob b) (place b + (projectVersionLong buildCommitId).length + 1)
      reserveSize := by
  have hkey : key.length = 32 := h.userData.1
  have hextra := h.userData.2.2
  obtain ⟨-, -, -, hdrop⟩ := h.byte_at
  refine ⟨⟨key, _, rest, h.userData, ?_⟩, ?_⟩
  · intro i hi
    refine ⟨?_, by unfold place; omega, ?_⟩
    · have hget : ((blockToBlob b).drop (place b))[(projectVersionLong buildCommitId).length +
          (1 + i)]? = some 0 := by
        rw [hdrop, List.getElem?_append_right (by omega), Nat.add_sub_cancel_left,
          List.getElem?_append_left (by rw [List.length_replicate]; omega),
          List.getElem?_replicate, if_pos (by omega)]
      rwa [List.getElem?_drop, show place b + ((projectVersionLong buildCommitId).length + (1 + i)) =
        place b + (projectVersionLong buildCommitId).length + 1 + i by omega] at hget
    · unfold place blobReserve
      rw [List.length_append, List.length_replicate]
      omega
  · intro data hdata
    -- the extra field in front of the reserved zeros
    generalize hfront : txExtraTagPubkey :: key ++ (txExtraTagUserData ::
      UInt8.ofNat (blobReserve buildCommitId reserveSize).length ::
        (projectVersionLong buildCommitId ++ [0])) = front
    have hfrontLen : front.length = 35 + (projectVersionLong buildCommitId).length + 1 := by
      rw [← hfront]
      simp only [List.length_append, List.length_cons, List.length_nil, hkey]
      omega
    have hsplit : b.minerTx.extra = front ++ List.replicate reserveSize 0 ++ rest := by
      have hreserve : blobReserve buildCommitId reserveSize =
          projectVersionLong buildCommitId ++ 0 :: List.replicate reserveSize 0 := by
        unfold blobReserve
        rw [List.replicate_add]
        rfl
      rw [hextra, ← hfront, hreserve]
      simp only [List.append_assoc, List.cons_append, List.nil_append]
    have hover : overwriteAt b.minerTx.extra (place b +
        (projectVersionLong buildCommitId).length + 1 - (blockHead b).length) data =
          front ++ data ++ rest := by
      rw [show place b + (projectVersionLong buildCommitId).length + 1 - (blockHead b).length =
        front.length by unfold place; omega, hsplit]
      exact overwriteAt_middle (by rw [hdata, List.length_replicate])
    have hblob : overwriteAt (blockToBlob b)
        (place b + (projectVersionLong buildCommitId).length + 1) data =
          blockHead b ++ (front ++ data ++ rest) ++ blockTail b := by
      have hwhole : blockToBlob b = (blockHead b ++ front) ++ List.replicate reserveSize 0 ++
          (rest ++ blockTail b) := by
        rw [blockToBlob_eq h.template.current h.template.minerTx h.template.sized, hsplit]
        simp only [List.append_assoc]
      rw [hwhole, show place b + (projectVersionLong buildCommitId).length + 1 =
        (blockHead b ++ front).length by rw [List.length_append]; unfold place; omega]
      rw [overwriteAt_middle (by rw [hdata, List.length_replicate])]
      simp only [List.append_assoc]
    rw [hover, hblob]
    refine parse_with_extra h.template ?_
    rw [hsplit]
    simp only [List.length_append, List.length_replicate, hdata]

end Versioned

namespace Versioned

variable {b : Block} {buildCommitId key rest : Blob} {reserveSize : Nat}

/-- An offset that is taken from an earlier occurrence points at no zero of the
user data. -/
theorem not_reservedArea (h : Versioned b buildCommitId reserveSize key rest)
    (hcommit : ∀ ch ∈ buildCommitId, 32 ≤ ch) (hsome : 0 < reserveSize) {pos : Nat}
    (hearlier : pos < place b)
    (hocc : projectVersionLong buildCommitId <+: (blockToBlob b).drop pos) :
    ¬ ReservedArea b (blockToBlob b) (pos + (projectVersionLong buildCommitId).length + 1)
      reserveSize := by
  intro harea
  obtain ⟨key', nonce', rest', -, hzeros⟩ := harea.zeros
  obtain ⟨hzero, hlow, -⟩ := hzeros 0 hsome
  obtain ⟨-, htwo, hlen, -⟩ := h.byte_at
  have hlong := projectVersionLong_length buildCommitId
  obtain ⟨hkey, hshort, -⟩ := h.userData
  unfold place at hearlier
  rcases Nat.lt_or_ge (pos + (projectVersionLong buildCommitId).length + 1)
    ((blockHead b).length + 35) with hfront | hbehind
  · -- on the tag or on the length byte
    rcases Nat.lt_or_eq_of_le (show pos + (projectVersionLong buildCommitId).length + 1 ≤
      (blockHead b).length + 34 by omega) with htag | hcount
    · rw [show pos + (projectVersionLong buildCommitId).length + 1 + 0 =
        (blockHead b).length + 33 by omega, htwo] at hzero
      cases hzero
    · rw [show pos + (projectVersionLong buildCommitId).length + 1 + 0 =
        (blockHead b).length + 34 by omega, hlen] at hzero
      have hbyte : (UInt8.ofNat (blobReserve buildCommitId reserveSize).length).toNat =
          (blobReserve buildCommitId reserveSize).length :=
        UInt8.toNat_ofNat_of_lt' (show _ < 256 by omega)
      rw [Option.some.inj hzero] at hbyte
      unfold blobReserve at hbyte
      rw [List.length_append, List.length_replicate] at hbyte
      have hnone : (0 : UInt8).toNat = 0 := rfl
      omega
  · by_cases hin : pos + 1 < (blockHead b).length + 35
    · -- in the version
      have hget := getElem?_of_occurs h.occurs (i := pos + (projectVersionLong buildCommitId).length +
        1 - ((blockHead b).length + 35)) (by omega)
      rw [show place b + (pos + (projectVersionLong buildCommitId).length + 1 -
        ((blockHead b).length + 35)) = pos + (projectVersionLong buildCommitId).length + 1 + 0 by
          unfold place; omega, hzero] at hget
      have hlarge := projectVersionLong_printable hcommit _ (List.getElem_mem
        (show pos + (projectVersionLong buildCommitId).length + 1 - ((blockHead b).length + 35) <
          (projectVersionLong buildCommitId).length by omega))
      rw [← Option.some.inj hget] at hlarge
      exact absurd hlarge (by decide)
    · exact h.not_one_before (by unfold place; omega) hocc

end Versioned

/-! ## Which requests get what they ask for -/

/-- The bytes of the coinbase's public key. -/
def minerKey (b : Block) : Blob := (b.minerTx.extra.drop 1).take 32

theorem minerKey_eq {b : Block} {key nonce rest : Blob}
    (h : UserData b.minerTx.extra key nonce rest) : minerKey b = key := by
  unfold minerKey
  rw [h.2.2, List.cons_append, List.drop_one, List.tail_cons, List.take_left' h.1]

section

variable {c : TemplateCall} {req : BlockTemplateRequest} {acc : AccountPublicAddress}
  {ai : AliasInfo} {b : Block}

/-- A template that was returned has the version text in its coinbase. -/
theorem TemplateCall.versioned (hsize : c.env.prefixBlobsize = serializedPrefixSize)
    (htxs : FitsVector c.txs) (hb : c.getBlockTemplate req acc ai = .ok (some b)) :
    (blobReserve c.buildCommitId req.reserveSize.toNat).length ≤ 255 ∧
      ∃ rest, Versioned b c.buildCommitId req.reserveSize.toNat (minerKey b) rest := by
  have hne : blobReserve c.buildCommitId req.reserveSize.toNat ≠ [] := by
    obtain ⟨rest, hversion⟩ := projectVersionLong_head c.buildCommitId
    unfold blobReserve
    rw [hversion]
    exact List.cons_ne_nil _ _
  have htemplate := createBlockTemplateWithAlias_some hsize htxs hne hb
  obtain ⟨key, rest, huser⟩ := htemplate.userData
  exact ⟨huser.2.1, rest, htemplate, (minerKey_eq huser).symm ▸ huser⟩

/-- What the call answers once the template is there. -/
theorem TemplateCall.respond_ok {rest key : Blob}
    (h : Versioned b c.buildCommitId req.reserveSize.toNat key rest) :
    ∃ res pos, c.respond req b = .ok res ∧
      res.reservedOffset = pos + (projectVersionLong c.buildCommitId).length + 1 ∧
      parseHexstrToBinbuff res.blocktemplateBlob = some (blockToBlob b) ∧
      pos ≤ Versioned.place b ∧
      projectVersionLong c.buildCommitId <+: (blockToBlob b).drop pos ∧
      (pos < Versioned.place b ↔ ∃ p < Versioned.place b,
        projectVersionLong c.buildCommitId <+: (blockToBlob b).drop p) := by
  obtain ⟨pos, hle, hfound, hearlier⟩ := h.found
  have hlen := h.blob_length
  unfold respond
  simp only [hfound]
  rw [if_neg (by omega)]
  exact ⟨_, pos, rfl, rfl, parseHexstrToBinbuff_buffToHexNodelimer _, hle,
    (findBytes_eq_some.1 hfound).1, hearlier⟩

end

/-- A request that passes the checks gets the area it asks for exactly when the
version, a zero and the reserve fit into the user data, and the coinbase's own
public key does not contain the version (unless nothing is reserved). -/
theorem reserved_area_iff {c : TemplateCall} {req : BlockTemplateRequest}
    {acc : AccountPublicAddress} {ai : AliasInfo}
    (hsize : c.env.prefixBlobsize = serializedPrefixSize) (htxs : FitsVector c.txs)
    (hcommit : ∀ ch ∈ c.buildCommitId, 32 ≤ ch)
    (haccepted : checkedRequest c.addressFromStr c.coreReady req = .ok (acc, ai))
    (hmade : (blobReserve c.buildCommitId req.reserveSize.toNat).length ≤ 255 →
      ∃ b, c.getBlockTemplate req acc ai = .ok (some b))
    (hhead : ∀ b, c.getBlockTemplate req acc ai = .ok (some b) →
      ¬ projectVersionLong c.buildCommitId <:+: blockHead b) :
    c.ReservedAsAsked req ↔
      (projectVersionLong c.buildCommitId).length + 1 + req.reserveSize.toNat ≤ 255 ∧
        (req.reserveSize = 0 ∨ ∀ b, c.getBlockTemplate req acc ai = .ok (some b) →
          ¬ projectVersionLong c.buildCommitId <:+: minerKey b) := by
  have hreserve : (blobReserve c.buildCommitId req.reserveSize.toNat).length =
      (projectVersionLong c.buildCommitId).length + 1 + req.reserveSize.toNat := by
    unfold blobReserve
    rw [List.length_append, List.length_replicate]
    omega
  constructor
  · rintro ⟨res, acc', ai', b, blob, hcall, hchecked, hb, hblob, harea⟩
    cases haccepted.symm.trans hchecked
    obtain ⟨hshort, rest, hversioned⟩ := TemplateCall.versioned hsize htxs hb
    refine ⟨by omega, ?_⟩
    by_cases hnone : req.reserveSize = 0
    · exact .inl hnone
    · refine .inr fun b' hb' => ?_
      cases hb.symm.trans hb'
      obtain ⟨res', pos, hres', hoffset, hhex, hle, hocc, hearlier⟩ :=
        TemplateCall.respond_ok hversioned
      unfold TemplateCall.onGetblocktemplate at hcall
      rw [haccepted] at hcall
      simp only [hb, hres'] at hcall
      cases hcall
      cases hblob.symm.trans hhex
      intro hkey
      have hpos : pos < Versioned.place b :=
        hearlier.2 ((hversioned.earlier_iff hcommit (hhead b hb)).2 hkey)
      have hsome : 0 < req.reserveSize.toNat := by
        rw [Nat.pos_iff_ne_zero]
        intro hzero
        exact hnone (UInt64.toNat_inj.1 hzero)
      rw [hoffset] at harea
      exact hversioned.not_reservedArea hcommit hsome hpos hocc harea
  · rintro ⟨hshort, hkey⟩
    obtain ⟨b, hb⟩ := hmade (by omega)
    obtain ⟨-, rest, hversioned⟩ := TemplateCall.versioned hsize htxs hb
    obtain ⟨res, pos, hres, hoffset, hhex, hle, hocc, hearlier⟩ :=
      TemplateCall.respond_ok hversioned
    have hcall : c.onGetblocktemplate req = .ok (.ok res) := by
      unfold TemplateCall.onGetblocktemplate
      rw [haccepted]
      simp only [hb, hres]
    refine ⟨res, acc, ai, b, blockToBlob b, hcall, haccepted, hb, hhex, ?_⟩
    rcases hkey with hnone | hfree
    · rw [hnone] at hversioned ⊢
      exact hversioned.reservedArea_zero _
    · have hat : pos = Versioned.place b := by
        by_contra hne
        have hlt : pos < Versioned.place b := by omega
        exact hfree b hb ((hversioned.earlier_iff hcommit (hhead b hb)).1 (hearlier.1 hlt))
      rw [hoffset, hat]
      exact hversioned.reservedArea

namespace Devnet

/-- The call to a node that knows the first block alone. -/
def poolCall : TemplateCall where
  env := BulkLine.env
  kd := BulkLine.kd
  now := BulkLine.now
  node := (runFromGenesis BulkLine.env BulkLine.now 3 ∅ (FarLine.block 0 0) []).getD (Node.initial ∅)
  txs := []
  keys := BulkLine.keys
  buildCommitId := [97, 49, 98, 50, 99, 51, 100]
  addressFromStr s := if s = [49] then some BulkLine.miner else none
  coreReady := true

theorem poolCall_commit : ∀ ch ∈ poolCall.buildCommitId, 32 ≤ ch := by
  show ∀ ch ∈ ([97, 49, 98, 50, 99, 51, 100] : Blob), 32 ≤ ch
  simp

/-- A request for so many bytes, without an alias. -/
def reserving (reserveSize : UInt64) : BlockTemplateRequest where
  reserveSize
  walletAddress := [49]
  aliasDetails := ⟨[], [], [], []⟩
  devBountiesVote := none

/-- The block of the sample call, if it returns one. -/
def madeTemplate (reserveSize : UInt64) : Option Block :=
  match poolCall.getBlockTemplate (reserving reserveSize) BulkLine.miner AliasInfo.empty with
  | .ok b => b
  | .error _ => none

/-- What that means for the call. -/
theorem madeTemplate_eq_some {reserveSize : UInt64} {b : Block} :
    madeTemplate reserveSize = some b ↔
      poolCall.getBlockTemplate (reserving reserveSize) BulkLine.miner AliasInfo.empty =
        .ok (some b) := by
  unfold madeTemplate
  cases poolCall.getBlockTemplate (reserving reserveSize) BulkLine.miner AliasInfo.empty with
  | ok o => simp
  | error e => simp

/-- Neither the bytes in front of the coinbase's extra field nor its public key
contain the version. -/
theorem madeTemplate_238 : ((madeTemplate 238).map fun b =>
    decide (projectVersionLong poolCall.buildCommitId <:+: blockHead b) ||
      decide (projectVersionLong poolCall.buildCommitId <:+: minerKey b)) = some false := by
  decide +kernel

theorem madeTemplate_255 : madeTemplate 255 = none := by
  decide +kernel

/-- The sample request passes the checks. -/
theorem reserving_accepted (reserveSize : UInt64) (h : reserveSize ≤ 255) :
    checkedRequest poolCall.addressFromStr poolCall.coreReady (reserving reserveSize) =
      .ok (BulkLine.miner, AliasInfo.empty) := by
  unfold checkedRequest
  rw [if_neg (by decide), 
    if_neg (show ¬ 255 < (reserving reserveSize).reserveSize from UInt64.not_lt.2 h)]
  rfl

end Devnet

/-- With a commit of seven digits, 238 bytes can be had. -/
theorem reserved_area_238 : Devnet.poolCall.ReservedAsAsked (Devnet.reserving 238) := by
  obtain ⟨b, hb, hfree⟩ := Option.map_eq_some_iff.1 Devnet.madeTemplate_238
  rw [Bool.or_eq_false_iff, decide_eq_false_iff_not, decide_eq_false_iff_not] at hfree
  have hmade := Devnet.madeTemplate_eq_some.1 hb
  refine (reserved_area_iff BulkLine.steady_env.prefixBlobsize (by unfold FitsVector; decide)
    Devnet.poolCall_commit (Devnet.reserving_accepted 238 (by decide)) (fun _ => ⟨b, hmade⟩) ?_).2
    ⟨by decide, .inr ?_⟩
  · intro b' hb'
    cases hmade.symm.trans hb'
    exact hfree.1
  · intro b' hb'
    cases hmade.symm.trans hb'
    exact hfree.2

/-- A request for 255 bytes passes the checks and gets no template, on a node that
makes one for 238 bytes. -/
theorem reserved_area_255 :
    checkedRequest Devnet.poolCall.addressFromStr Devnet.poolCall.coreReady
        (Devnet.reserving 255) = .ok (BulkLine.miner, AliasInfo.empty) ∧
      (∃ b, Devnet.poolCall.getBlockTemplate (Devnet.reserving 238) BulkLine.miner
        AliasInfo.empty = .ok (some b)) ∧
      ¬ Devnet.poolCall.ReservedAsAsked (Devnet.reserving 255) := by
  obtain ⟨b, hb, -⟩ := Option.map_eq_some_iff.1 Devnet.madeTemplate_238
  have haccepted := Devnet.reserving_accepted 255 (UInt64.le_refl _)
  refine ⟨haccepted, ⟨b, Devnet.madeTemplate_eq_some.1 hb⟩, ?_⟩
  rintro ⟨res, acc, ai, b', blob, -, hchecked, hb', -⟩
  cases haccepted.symm.trans hchecked
  have hmade := Devnet.madeTemplate_eq_some.2 hb'
  rw [Devnet.madeTemplate_255] at hmade
  cases hmade

end DarknetSpace
