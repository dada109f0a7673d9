import DarknetSpace.Core.Core
import DarknetSpace.Format.RoundTrip
import DarknetSpace.Lib.TreeHash

/-!
# What a block id commits to

`get_block_hash` hashes the header, the root of the tree over the transaction
ids, the coinbase's in front, and their number. The id of the coinbase is the
hash of its prefix, so its signatures stay outside; and no check on the way into
the main chain looks at them.

The hash function is a parameter, `cn`, and what is assumed of it is assumed of
the blobs that are hashed for the two blocks at hand: a function from all blobs
to 32 bytes is never injective.

Main result: `block_blob_eq_iff_of_same_id`, for any two blocks that were parsed. The
fields are read off the bytes one after the other; the coinbase's prefix ends where its
own codec says.
-/

namespace DarknetSpace

/-! ## The id as a hash of bytes -/

/-- The 64 bytes of two neighbouring hashes. -/
def pairBlob (p : Hash × Hash) : Blob := bytesOfPod 32 p.1.toNat ++ bytesOfPod 32 p.2.toNat

def hashPair (cn : Blob → Hash) (p : Hash × Hash) : Hash := cn (pairBlob p)

/-- `tree_hash`. The loop over the bits of `count - 1` finds its highest one,
which is the size of the first level; a tree over nothing is ruled out by an
assertion. -/
def treeHash (cn : Blob → Hash) : List Hash → Hash
  | [] => nullHash
  | [h] => h
  | [a, b] => hashPair cn (a, b)
  | hs => TreeHash.root (hashPair cn) nullHash hs

/-- `get_block_hashing_blob`. -/
def getBlockHashingBlob (env : Env) (b : Block) : Blob :=
  Archive.blockHeader.encode b.toBlockHeader ++ bytesOfPod 32 (getTxTreeHash env b).toNat ++
    writeVarint ((b.txHashes.length + 1) % 2 ^ 64)

/-- `get_object_hash` of a blob serialises it as a string first. -/
def blockIdBlob (env : Env) (b : Block) : Blob := Archive.bytes.encode (getBlockHashingBlob env b)

/-- The hashes of transactions and blocks are made by `cn_fast_hash`. -/
structure Env.HashesWith (env : Env) (cn : Blob → Hash) : Prop where
  hashPrefix : ∀ tx, env.hashPrefix tx = cn (Archive.transactionPrefix.encode tx)
  hashTxTree : ∀ hs, env.hashTxTree hs = treeHash cn hs
  hashBlock : ∀ b, env.hashBlock b = cn (blockIdBlob env b)

/-- The transaction ids the tree is built over. -/
def treeLeaves (env : Env) (b : Block) : List Hash := getTransactionHash env b.minerTx :: b.txHashes

/-- What `cn_fast_hash` is called on for the id of a block. -/
def hashedBlobs (env : Env) (cn : Blob → Hash) (b : Block) : List Blob :=
  Archive.transactionPrefix.encode b.minerTx.toTransactionPrefix :: blockIdBlob env b ::
    (TreeHash.hashed (hashPair cn) (treeLeaves env b)).map pairBlob

/-- No two blobs hashed for the two ids collide. -/
def CollisionFree (env : Env) (cn : Blob → Hash) (b₁ b₂ : Block) : Prop :=
  Set.InjOn cn {s | s ∈ hashedBlobs env cn b₁ ∨ s ∈ hashedBlobs env cn b₂}

/-! ## Reading the fields off the bytes -/

theorem pairBlob_injective {p q : Hash × Hash} (h : pairBlob p = pairBlob q) : p = q := by
  have hp := Codec.seq_encode (Archive.hash_ok p.1) Archive.hash p.2
  have hq := Codec.seq_encode (Archive.hash_ok q.1) Archive.hash q.2
  refine Codec.encode_injective (Archive.hash.seq Archive.hash) (Codec.seq_ok.2
    ⟨Archive.hash_ok _, Archive.hash_ok _⟩) (Codec.seq_ok.2 ⟨Archive.hash_ok _, Archive.hash_ok _⟩) ?_
  exact hp.trans (h.trans hq.symm)

theorem treeHash_eq_root (cn : Blob → Hash) (hs : List Hash) :
    treeHash cn hs = TreeHash.root (hashPair cn) nullHash hs := by
  match hs with
  | [] => rfl
  | [h] => rfl
  | [a, b] => rfl
  | _ :: _ :: _ :: _ => rfl

theorem blockHeader_length_le (h : BlockHeader) : (Archive.blockHeader.encode h).length ≤ 62 := by
  have hnonce : (Archive.uint64.encode h.nonce).length ≤ 8 := Nat.le_of_eq (bytesOfPod_length 8 _)
  have hprev : (Archive.hash.encode h.prevId).length ≤ 32 := Nat.le_of_eq (bytesOfPod_length 32 _)
  have hminor : (Archive.varint8.encode h.minorVersion).length ≤ 10 := writeVarint_length_le _
  have htime : (Archive.varint64.encode h.timestamp).length ≤ 10 := writeVarint_length_le _
  have hflags : (Codec.byte.encode h.flags).length ≤ 1 := Nat.le_refl 1
  have hmajor : ((Codec.byte.guarded fun v =>
      !decide (currentBlockMajorVersion < v.toNat)).encode h.majorVersion).length ≤ 1 := Nat.le_refl 1
  have htail : ((Archive.varint64.seq Codec.byte).encode (h.timestamp, h.flags)).length ≤ 10 + 1 :=
    Codec.seq_length_le htime hflags
  have htail : ((Archive.varint8.seq (Archive.varint64.seq Codec.byte)).encode
      (h.minorVersion, h.timestamp, h.flags)).length ≤ 10 + (10 + 1) :=
    Codec.seq_length_le hminor htail
  have htail : ((Archive.hash.seq (Archive.varint8.seq (Archive.varint64.seq Codec.byte))).encode
      (h.prevId, h.minorVersion, h.timestamp, h.flags)).length ≤ 32 + (10 + (10 + 1)) :=
    Codec.seq_length_le hprev htail
  have htail : ((Archive.uint64.seq (Archive.hash.seq
      (Archive.varint8.seq (Archive.varint64.seq Codec.byte)))).encode
      (h.nonce, h.prevId, h.minorVersion, h.timestamp, h.flags)).length ≤
        8 + (32 + (10 + (10 + 1))) :=
    Codec.seq_length_le hnonce htail
  have hall : (((Codec.byte.guarded fun v => !decide (currentBlockMajorVersion < v.toNat)).seq
      (Archive.uint64.seq (Archive.hash.seq
        (Archive.varint8.seq (Archive.varint64.seq Codec.byte))))).encode
      (h.majorVersion, h.nonce, h.prevId, h.minorVersion, h.timestamp, h.flags)).length ≤
        1 + (8 + (32 + (10 + (10 + 1)))) :=
    Codec.seq_length_le hmajor htail
  exact hall

section

variable {env : Env} {cn : Blob → Hash} {b₁ b₂ : Block}

/-- A hashing blob is short enough to be serialised as a string. -/
theorem hashingBlob_fits (b : Block) : FitsVector (getBlockHashingBlob env b) := by
  have hheader := blockHeader_length_le b.toBlockHeader
  have hcount := writeVarint_length_le ((b.txHashes.length + 1) % 2 ^ 64)
  unfold FitsVector getBlockHashingBlob
  rw [List.length_append, List.length_append, bytesOfPod_length]
  omega

/-- The fields behind a hashing blob. -/
theorem hashingBlob_injective (h₁ : (Archive.blockHeader.write b₁.toBlockHeader).ok = true)
    (h₂ : (Archive.blockHeader.write b₂.toBlockHeader).ok = true)
    (h : getBlockHashingBlob env b₁ = getBlockHashingBlob env b₂) :
    b₁.toBlockHeader = b₂.toBlockHeader ∧ getTxTreeHash env b₁ = getTxTreeHash env b₂ ∧
      (b₁.txHashes.length + 1) % 2 ^ 64 = (b₂.txHashes.length + 1) % 2 ^ 64 := by
  have hcount : ∀ b : Block, ((varint 64 (Nat.le_refl 64)).write
      ((b.txHashes.length + 1) % 2 ^ 64)).ok = true :=
    fun b => decide_eq_true (Nat.mod_lt _ (by decide))
  have hfields : ∀ b : Block, (Archive.blockHeader.write b.toBlockHeader).ok = true →
      (Archive.blockHeader.seq (Archive.hash.seq (varint 64 (Nat.le_refl 64)))).encode
        (b.toBlockHeader, getTxTreeHash env b, (b.txHashes.length + 1) % 2 ^ 64) =
      getBlockHashingBlob env b := by
    intro b hb
    rw [Codec.seq_encode hb, Codec.seq_encode (Archive.hash_ok _)]
    exact (List.append_assoc _ _ _).symm
  rw [← hfields b₁ h₁, ← hfields b₂ h₂] at h
  have heq := Codec.encode_injective _
    (Codec.seq_ok.2 ⟨h₁, Codec.seq_ok.2 ⟨Archive.hash_ok _, hcount b₁⟩⟩)
    (Codec.seq_ok.2 ⟨h₂, Codec.seq_ok.2 ⟨Archive.hash_ok _, hcount b₂⟩⟩) h
  injection heq with hheader hrest
  injection hrest with hroot hcount
  exact ⟨hheader, hroot, hcount⟩

/-- Two blocks that can be written and share an id have everything in common but
the signatures of their coinbases. -/
theorem same_but_signatures (hcn : env.HashesWith cn)
    (h₁ : (Archive.block.write b₁).ok = true) (h₂ : (Archive.block.write b₂).ok = true)
    (hfree : CollisionFree env cn b₁ b₂) (hid : getBlockHash env b₁ = getBlockHash env b₂) :
    b₁.toBlockHeader = b₂.toBlockHeader ∧
      b₁.minerTx.toTransactionPrefix = b₂.minerTx.toTransactionPrefix ∧
      b₁.txHashes = b₂.txHashes := by
  obtain ⟨hheader₁, hrest₁⟩ := Codec.seq_ok.1 h₁
  obtain ⟨hheader₂, hrest₂⟩ := Codec.seq_ok.1 h₂
  obtain ⟨htx₁, hhashes₁⟩ := Codec.seq_ok.1 hrest₁
  obtain ⟨htx₂, hhashes₂⟩ := Codec.seq_ok.1 hrest₂
  have hlen₁ : b₁.txHashes.length < 2 ^ 64 := Archive.hashes_fits hhashes₁
  have hlen₂ : b₂.txHashes.length < 2 ^ 64 := Archive.hashes_fits hhashes₂
  -- the id gives the hashing blob, and that gives header, root and count
  have hblob : blockIdBlob env b₁ = blockIdBlob env b₂ := by
    refine hfree (.inl ?_) (.inr ?_) ?_
    · exact List.mem_cons_of_mem _ List.mem_cons_self
    · exact List.mem_cons_of_mem _ List.mem_cons_self
    · rw [← hcn.hashBlock, ← hcn.hashBlock]
      exact hid
  have hhashing := Codec.encode_injective Archive.bytes (Archive.bytes_ok (hashingBlob_fits b₁))
    (Archive.bytes_ok (hashingBlob_fits b₂)) hblob
  obtain ⟨hheader, hroot, hcount⟩ := hashingBlob_injective hheader₁ hheader₂ hhashing
  have hlen : b₁.txHashes.length = b₂.txHashes.length := by omega
  -- the root gives the leaves
  have hpair : Set.InjOn (hashPair cn) {p | p ∈ TreeHash.hashed (hashPair cn) (treeLeaves env b₁) ∨
      p ∈ TreeHash.hashed (hashPair cn) (treeLeaves env b₂)} := by
    intro p hp q hq hpq
    refine pairBlob_injective (hfree ?_ ?_ hpq)
    · exact hp.imp (fun h => List.mem_cons_of_mem _ (List.mem_cons_of_mem _ (List.mem_map_of_mem h)))
        (fun h => List.mem_cons_of_mem _ (List.mem_cons_of_mem _ (List.mem_map_of_mem h)))
    · exact hq.imp (fun h => List.mem_cons_of_mem _ (List.mem_cons_of_mem _ (List.mem_map_of_mem h)))
        (fun h => List.mem_cons_of_mem _ (List.mem_cons_of_mem _ (List.mem_map_of_mem h)))
  have hleaves : treeLeaves env b₁ = treeLeaves env b₂ := by
    refine TreeHash.eq_of_root_eq hpair ?_ (Nat.succ_pos _) (fun p hp => .inl hp)
      (fun p hp => .inr hp) (d := nullHash) ?_
    · show b₁.txHashes.length + 1 = b₂.txHashes.length + 1
      rw [hlen]
    · rw [← treeHash_eq_root, ← treeHash_eq_root, ← hcn.hashTxTree, ← hcn.hashTxTree]
      exact hroot
  obtain ⟨hcoinbase, hhashes⟩ := List.cons.inj hleaves
  -- the first leaf gives the prefix of the coinbase
  have hprefix : Archive.transactionPrefix.encode b₁.minerTx.toTransactionPrefix =
      Archive.transactionPrefix.encode b₂.minerTx.toTransactionPrefix := by
    refine hfree (.inl List.mem_cons_self) (.inr List.mem_cons_self) ?_
    rw [← hcn.hashPrefix, ← hcn.hashPrefix]
    exact hcoinbase
  exact ⟨hheader, Codec.encode_injective _ (Codec.seq_ok.1 htx₁).1 (Codec.seq_ok.1 htx₂).1 hprefix,
    hhashes⟩

end

/-- Two parsed blocks with one id have the same bytes exactly when their coinbases
carry the same signatures. -/
theorem block_blob_eq_iff_of_same_id {env : Env} {cn : Blob → Hash} {s₁ s₂ : Blob} {b₁ b₂ : Block}
    (hcn : env.HashesWith cn) (h₁ : parseAndValidateBlockFromBlob s₁ = some b₁)
    (h₂ : parseAndValidateBlockFromBlob s₂ = some b₂) (hfree : CollisionFree env cn b₁ b₂)
    (hid : getBlockHash env b₁ = getBlockHash env b₂) :
    blockToBlob b₁ = blockToBlob b₂ ↔ b₁.minerTx.signatures = b₂.minerTx.signatures := by
  have hok₁ := Codec.ok_of_decode h₁
  have hok₂ := Codec.ok_of_decode h₂
  constructor
  · intro hblob
    rw [Codec.encode_injective Archive.block hok₁ hok₂ hblob]
  · intro hsigs
    obtain ⟨hheader, hprefix, hhashes⟩ := same_but_signatures hcn hok₁ hok₂ hfree hid
    have hminer : b₁.minerTx = b₂.minerTx := by
      rcases b₁ with ⟨_, ⟨_, _⟩, _⟩
      rcases b₂ with ⟨_, ⟨_, _⟩, _⟩
      simp_all
    rcases b₁ with ⟨_, _, _⟩
    rcases b₂ with ⟨_, _, _⟩
    simp_all

theorem collisionFree_of_forall {env : Env} {cn : Blob → Hash} {b₁ b₂ : Block}
    (h : ∀ x ∈ hashedBlobs env cn b₁ ++ hashedBlobs env cn b₂,
      ∀ y ∈ hashedBlobs env cn b₁ ++ hashedBlobs env cn b₂, cn x = cn y → x = y) :
    CollisionFree env cn b₁ b₂ :=
  fun x hx y hy hxy => h x (List.mem_append.2 hx) y (List.mem_append.2 hy) hxy

namespace Devnet

/-- A hash of every byte. -/
def rollingHash (s : Blob) : Hash :=
  BitVec.ofNat 256 (s.foldl (fun h b => h * 257 + b.toNat + 1) 0)

/-- The network with ids made from bytes. -/
def blobEnv : Env :=
  let hashing : Env :=
    { env with
      hashPrefix tx := rollingHash (Archive.transactionPrefix.encode tx)
      hashTxTree := treeHash rollingHash }
  { hashing with hashBlock b := rollingHash (blockIdBlob hashing b) }

theorem blobEnv_hashesWith : blobEnv.HashesWith rollingHash :=
  ⟨fun _ => rfl, fun _ => rfl, fun _ => rfl⟩

def blobNode : Node := (runFromGenesis blobEnv now 3 ∅ genesis []).getD (Node.initial ∅)

/-- A block on top of genesis, with the given signatures in its coinbase. -/
def signedBlock (signatures : List (List Signature)) : Block :=
  { mainBlock 1 with
    prevId := getBlockHash blobEnv genesis
    minerTx := { coinbase 1 1 0 [] with signatures } }

/-- What `handle_block_to_main_chain` makes of it. -/
def handleSigned (signatures : List (List Signature)) : EStateM.Result Exn Node BlockVerdict :=
  handleBlockToMainChain blobEnv now (signedBlock signatures)
    (getBlockHash blobEnv (signedBlock signatures)) blobNode

theorem signedBlock_parsed :
    parseAndValidateBlockFromBlob (blockToBlob (signedBlock [])) = some (signedBlock []) ∧
      parseAndValidateBlockFromBlob (blockToBlob (signedBlock [[]])) = some (signedBlock [[]]) := by
  decide +kernel

theorem signedBlock_collisionFree :
    CollisionFree blobEnv rollingHash (signedBlock []) (signedBlock [[]]) :=
  collisionFree_of_forall (by decide +kernel)

theorem signedBlock_same_id :
    getBlockHash blobEnv (signedBlock []) = getBlockHash blobEnv (signedBlock [[]]) := by
  decide +kernel

end Devnet

theorem block_blob_eq_iff_signedBlock :
    getBlockHash Devnet.blobEnv (Devnet.signedBlock []) =
        getBlockHash Devnet.blobEnv (Devnet.signedBlock [[]]) ∧
      ¬blockToBlob (Devnet.signedBlock []) = blockToBlob (Devnet.signedBlock [[]]) := by
  have hiff := block_blob_eq_iff_of_same_id Devnet.blobEnv_hashesWith Devnet.signedBlock_parsed.1
    Devnet.signedBlock_parsed.2 Devnet.signedBlock_collisionFree Devnet.signedBlock_same_id
  refine ⟨Devnet.signedBlock_same_id, ?_⟩
  rw [hiff]
  exact (List.cons_ne_nil _ _).symm

/-- On top of genesis, a block and its twin with one empty ring signature in the
coinbase: both pass every check, under one id. -/
theorem coinbase_signatures_not_committed :
    (Reachable Devnet.blobEnv Devnet.blobNode ∧
      Devnet.blobEnv.HashesWith Devnet.rollingHash ∧
      CollisionFree Devnet.blobEnv Devnet.rollingHash (Devnet.signedBlock [])
        (Devnet.signedBlock [[]])) ∧
    (isAdded (Devnet.handleSigned []) = true ∧ isAdded (Devnet.handleSigned [[]]) = true) ∧
    getBlockHash Devnet.blobEnv (Devnet.signedBlock []) =
      getBlockHash Devnet.blobEnv (Devnet.signedBlock [[]]) ∧
    blockToBlob (Devnet.signedBlock []) ≠ blockToBlob (Devnet.signedBlock [[]]) := by
  have hsome : (runFromGenesis Devnet.blobEnv Devnet.now 3 ∅ Devnet.genesis []).isSome = true := by
    decide +kernel
  obtain ⟨n, hn⟩ := Option.isSome_iff_exists.1 hsome
  have hreach : Reachable Devnet.blobEnv Devnet.blobNode := by
    rw [Devnet.blobNode, hn]
    exact reachable_of_runFromGenesis hn
  exact ⟨⟨hreach, Devnet.blobEnv_hashesWith, Devnet.signedBlock_collisionFree⟩, by decide +kernel,
    Devnet.signedBlock_same_id, by decide +kernel⟩

end DarknetSpace
