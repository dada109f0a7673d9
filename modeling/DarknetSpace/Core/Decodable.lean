import DarknetSpace.Core.Fence
import DarknetSpace.Core.PushPop

/-!
# The keys the chain hands to signature checks

`check_ring_signature` and `check_signature` abort on a key that is not a point
of the curve. The keys come from outputs and from alias histories. An ordinary
transaction's outputs are checked on the way in (`check_outs_valid`); the
outputs of a coinbase and the address of an alias are not. As long as those are
points too, every key the checks can meet is one.

`KeysDecode` is the invariant, over outputs that are on the chain, aliases that can be
updated and transactions of the pool, which may come back to it. What nothing checks is
the condition of the run: the outputs of each coinbase that is pushed, and the address
of each alias. The step lemmas are for one transaction, for pops and for pushes, and
come together as a `ChainInvariant`. Main result: `keys_at_hand_decode`.
-/

namespace DarknetSpace

open StateExn

/-! ## Keys of a transaction -/

/-- Every output key of a transaction is a point of the curve. -/
def KeysDecode (env : Env) (tx : TransactionPrefix) : Prop :=
  ∀ o ∈ tx.vout, ∀ key mixAttr, o.target = .toKey key mixAttr → env.checkKey key = true

/-- The address in a transaction's alias entry, where it has one, is a point of the curve. -/
def AliasDecodes (env : Env) (tx : TransactionPrefix) : Prop :=
  ∀ ai, txAlias env tx = some ai → env.checkKey ai.mAddress.mSpendPublicKey = true

/-- A transaction all of whose keys are points. -/
structure TxDecodes (env : Env) (tx : TransactionPrefix) : Prop where
  keys : KeysDecode env tx
  aliasKey : AliasDecodes env tx

/-- `check_tx_semantic` goes through the outputs and checks their keys. -/
theorem keysDecode_of_semantic {env : Env} {s : Storage} {tx : TransactionPrefix} {kept : Bool}
    (h : checkTxSemantic env s tx kept = true) : KeysDecode env tx := by
  unfold checkTxSemantic at h
  simp only [Bool.and_eq_true] at h
  obtain ⟨⟨⟨⟨⟨-, houts⟩, -⟩, -⟩, -⟩, -⟩ := h
  intro o ho key mixAttr ht
  have hvalid := List.all_eq_true.1 houts o ho
  simp only [ht, Bool.and_eq_true] at hvalid
  exact hvalid.2

/-! ## Alias histories -/

/-- Every entry of every history has a spend key that decodes. -/
def AliasesDecode (env : Env) (s : Storage) : Prop :=
  ∀ name, ∀ ai ∈ aliasHistory s name, env.checkKey ai.mAddress.mSpendPublicKey = true

section

variable {env : Env} {s s' : Storage}

theorem AliasesDecode.congr (h : AliasesDecode env s) (ha : s'.mAliases = s.mAliases) :
    AliasesDecode env s' := by
  unfold AliasesDecode aliasHistory
  rw [ha]
  exact h

/-- Replacing the history of one name by keys that decode. -/
theorem AliasesDecode.insert (h : AliasesDecode env s) {name : Blob} {hist : List AliasInfoBase}
    (hs : s'.mAliases = s.mAliases.insert name hist)
    (hh : ∀ ai ∈ hist, env.checkKey ai.mAddress.mSpendPublicKey = true) : AliasesDecode env s' := by
  intro name' ai hai
  have hhist := aliasHistory_insert s s.mAddrToAlias name name' hist
  unfold aliasHistory at hhist hai
  rw [hs, hhist] at hai
  split at hai
  · exact hh ai hai
  · exact h name' ai hai

/-- Registering or updating an alias with a key that decodes. -/
theorem AliasesDecode.putAliasInfo (h : AliasesDecode env s) {ai : AliasInfo}
    (hkey : env.checkKey ai.mAddress.mSpendPublicKey = true) (hne : ai.mAlias ≠ []) :
    AliasesDecode env (putAliasInfo env ai s).2 := by
  cases hr : (DarknetSpace.putAliasInfo env ai s).1 with
  | false =>
    rw [putAliasInfo_false hne hr]
    exact h.insert rfl (h ai.mAlias)
  | true =>
    rw [(putAliasInfo_true hr).2]
    refine h.insert rfl fun x hx => ?_
    rcases List.mem_append.1 hx with hx | hx
    · exact h ai.mAlias x hx
    · rw [List.mem_singleton.1 hx]
      exact hkey

/-- Popping an alias only shortens its history. -/
theorem AliasesDecode.popAliasInfo (h : AliasesDecode env s) (ai : AliasInfo) :
    AliasesDecode env (popAliasInfo ai s).2 := by
  unfold DarknetSpace.popAliasInfo
  split
  · exact h
  · simp only
    split
    · exact h.insert rfl (h ai.mAlias)
    · exact h.insert rfl fun x hx => h ai.mAlias x (List.dropLast_subset _ hx)

/-! ## One transaction -/

/-- Entering a transaction's alias. -/
theorem keeps_aliasesDecode_process {tx : Transaction} (htx : AliasDecodes env tx.toTransactionPrefix) :
    Keeps (AliasesDecode env) (processBlockchainTxExtra env tx) := by
  intro s hs
  unfold AliasDecodes txAlias at htx
  unfold processBlockchainTxExtra
  split
  · exact hs
  · exact hs
  · next ei hparse =>
    rw [hparse] at htx
    simp only at htx
    split
    · exact hs
    · next hne => exact hs.putAliasInfo (htx ei.mAlias (if_neg hne)) hne

/-- Taking a transaction's alias back. -/
theorem keeps_aliasesDecode_unprocess (env : Env) (tx : Transaction) :
    Keeps (AliasesDecode env) (unprocessBlockchainTxExtra env tx) := by
  intro s hs
  unfold unprocessBlockchainTxExtra
  split
  · split
    · exact hs
    · exact hs
    · split
      · exact hs
      · exact hs.popAliasInfo _
  · exact hs

theorem keeps_aliasesDecode_addInputs (env : Env) (vin : List Txin) :
    Keeps (AliasesDecode env) (addTransactionInputs env vin) := by
  intro s hs
  have hw := addTransactionInputs_withoutSpends env s.withoutSpends vin s rfl
  have ha := congrArg Storage.mAliases hw
  exact hs.congr ha

theorem keeps_aliasesDecode_purgeKeyimages (env : Env) (tx : Transaction) (strict : Bool) :
    Keeps (AliasesDecode env) (purgeTransactionKeyimagesFromBlockchain env tx strict) := by
  intro s hs
  have hw := purgeTransactionInputs_withoutSpends env strict s.withoutSpends tx.vin s rfl
  have ha := congrArg Storage.mAliases hw
  exact hs.congr ha

theorem keeps_aliasesDecode_popTransaction (env : Env) (tx : Transaction) (txId : Hash) :
    Keeps (AliasesDecode env) (popTransactionFromGlobalIndex env tx txId) := by
  intro s hs
  have hw := popOutputs_withoutOutputs env txId s.withoutOutputs tx.vout.zipIdx.reverse s rfl
  have ha := congrArg Storage.mAliases hw
  exact hs.congr ha

theorem pushTransaction_aliases (tx : Transaction) (txId : Hash) (s : Storage) :
    (pushTransactionToGlobalOutsIndex tx txId s).2.2.mAliases = s.mAliases := by
  unfold pushTransactionToGlobalOutsIndex
  split <;> rfl

/-- Entering a whole transaction: its alias is the only part that counts. -/
theorem keeps_aliasesDecode_addTransaction {tx : Transaction}
    (htx : AliasDecodes env tx.toTransactionPrefix) (txId : Hash) (height : Nat) (i : UInt16) :
    Keeps (AliasesDecode env) (addTransactionFromBlock env tx txId height i) := by
  refine Keeps.bind (keeps_aliasesDecode_process htx) fun r => Keeps.ite ?_ (Keeps.pure _)
  refine Keeps.bind (keeps_aliasesDecode_addInputs env tx.vin) fun r => Keeps.ite ?_ ?_
  · intro s hs
    rw [bind_of_ok (get_apply s)]
    refine Keeps.ite ?_ ?_ s hs
    · exact Keeps.bind (keeps_aliasesDecode_purgeKeyimages env tx true) fun _ =>
        Keeps.bind (keeps_aliasesDecode_unprocess env tx) fun _ => Keeps.pure _
    · intro m _
      exact hs.congr (pushTransaction_aliases tx txId _)
  · exact Keeps.bind (keeps_aliasesDecode_purgeKeyimages env tx false) fun _ =>
      Keeps.bind (keeps_aliasesDecode_unprocess env tx) fun _ => Keeps.pure _

end

/-! ## Pops -/

section

variable {env : Env} {now : Nat}

/-- The histories of the node's chain. -/
def NodeAliases (env : Env) (n : Node) : Prop := AliasesDecode env n.chain

/-- What the chain keeps, the node keeps. -/
theorem keeps_nodeAliases_onChain {α : Type} {x : StorageM α} (h : Keeps (AliasesDecode env) x) :
    Keeps (NodeAliases env) (onChain x) := by
  intro n hn
  have hx := h n.chain hn
  cases hr : x n.chain with
  | ok a s =>
    rw [hr] at hx
    rw [onChain_of_ok hr]
    exact hx
  | error e s =>
    rw [hr] at hx
    rw [onChain_of_error hr]
    exact hx

theorem keeps_nodeAliases_returnToPool (env : Env) (now : Nat) (tx : Transaction) :
    Keeps (NodeAliases env) (returnToPool env now tx) := by
  intro n hn
  unfold returnToPool
  split <;> exact hn

/-- Taking one transaction out of the chain. -/
theorem keeps_nodeAliases_purgeTransaction (txId : Hash) :
    Keeps (NodeAliases env) (purgeTransactionFromBlockchain env now txId) := by
  intro n hn
  unfold purgeTransactionFromBlockchain
  rw [bind_of_ok (get_apply n)]
  cases n.chain.mTransactions[txId]? with
  | none => exact hn
  | some idx =>
    simp only
    refine Keeps.bind (Keeps.reads _) (fun txe => ?_) n hn
    refine Keeps.bind (keeps_nodeAliases_onChain (keeps_aliasesDecode_purgeKeyimages env _ _)) fun _ =>
      Keeps.bind (keeps_nodeAliases_onChain (keeps_aliasesDecode_unprocess env _)) fun r =>
        Keeps.ite ?_ (Keeps.pure _)
    refine Keeps.bind (Keeps.ite (Keeps.pure _) (keeps_nodeAliases_returnToPool env now _)) fun _ =>
      Keeps.bind (keeps_nodeAliases_onChain (keeps_aliasesDecode_popTransaction env _ _)) fun _ =>
        Keeps.bind (Keeps.modify fun m hm => hm) fun _ => Keeps.pure _

/-- Taking all transactions of a block out, by induction on how many are left. -/
theorem keeps_nodeAliases_purgeBlockData (env : Env) (now : Nat) (bl : Block) (k : Nat) :
    Keeps (NodeAliases env) (purgeBlockDataFromBlockchain env now bl k) := by
  have all : ∀ ids, Keeps (NodeAliases env) (purgeTransactions env now ids) := by
    intro ids
    induction ids with
    | nil => exact Keeps.pure _
    | cons id rest ih =>
      exact Keeps.bind (keeps_nodeAliases_purgeTransaction id) fun _ => Keeps.bind ih fun _ =>
        Keeps.pure _
  exact Keeps.ite (Keeps.pure _) (all _)

/-- A pop. -/
theorem keeps_nodeAliases_popBlock (env : Env) (now : Nat) :
    Keeps (NodeAliases env) (popBlockFromBlockchain env now) := by
  refine Keeps.bind (Keeps.modify fun n hn => hn) fun _ => Keeps.bind Keeps.get fun n => ?_
  cases n.chain.mBlocks.getLast? with
  | none => exact Keeps.pure _
  | some bei =>
    refine Keeps.ite (Keeps.pure _) (Keeps.bind (Keeps.reads _) fun _ =>
      Keeps.bind (Keeps.modify fun n hn => hn) fun _ =>
        Keeps.bind (keeps_nodeAliases_purgeBlockData env now _ _) fun r => Keeps.ite (Keeps.pure _) ?_)
    exact Keeps.bind Keeps.get fun n => Keeps.ite (Keeps.pure _)
      (Keeps.bind (Keeps.modify fun n hn => hn) fun _ => Keeps.pure _)

/-! ## Pushes -/

/-- Nothing was pushed or popped since `n₀`, and all keys at hand decode. -/
def StillDecodes (env : Env) (n₀ n : Node) : Prop :=
  Quiet env (TxDecodes env) n₀ n ∧ NodeAliases env n

/-- The two halves of `StillDecodes` are kept on their own. -/
theorem keeps_stillDecodes {α : Type} {n₀ : Node} {x : NodeM α}
    (hq : Keeps (Quiet env (TxDecodes env) n₀) x) (ha : Keeps (NodeAliases env) x) :
    Keeps (StillDecodes env n₀) x :=
  hq.and ha

/-- Taking the transactions of a new block from the pool. Each was checked on the way in, so its
keys decode; those of a refused block are purged again. -/
theorem keeps_nodeAliases_takeTransactions (now : Nat) {n₀ : Node}
    (hG : TxsGood (TxDecodes env) n₀.chain.mBlocks) (bl : Block) (id : Hash) (k : Nat)
    (ids : List Hash) :
    Keeps (StillDecodes env n₀)
      (takeTransactions env now bl id k ids) := by
  induction ids generalizing k with
  | nil => exact Keeps.pure _
  | cons txId rest ih =>
    intro n hn
    unfold takeTransactions
    rw [bind_of_ok (get_apply n)]
    have purge := keeps_stillDecodes (keeps_purgeBlockData env hG now bl k)
      (keeps_nodeAliases_purgeBlockData env now bl k)
    cases ht : n.pool.takeTx env txId with
    | none => exact Keeps.bind purge (fun _ => Keeps.pure _) n hn
    | some r =>
      obtain ⟨txd, pool⟩ := r
      obtain ⟨hentry, hpool⟩ := hn.1.pool.takeTx ht
      have hgood : TxDecodes env (prunedTx n.chain.mIsInCheckpointZone txd.tx).toTransactionPrefix := by
        rw [prunedTx_toPrefix]
        exact hentry.good
      have hback : Keeps (StillDecodes env n₀)
          (returnToPool env now (prunedTx n.chain.mIsInCheckpointZone txd.tx)) :=
        keeps_stillDecodes (keeps_returnToPool now hgood) (keeps_nodeAliases_returnToPool env now _)
      simp only
      rw [bind_of_ok (set_apply n { n with pool })]
      have hn' : StillDecodes env n₀ { n with pool } := ⟨⟨hn.1.chain, hpool⟩, hn.2⟩
      refine Keeps.bind (Keeps.reads _) (fun used => ?_) _ hn'
      cases used with
      | none =>
        have invalid : Keeps (StillDecodes env n₀)
            (onChain (modify (addBlockAsInvalid id (BlockEntry.ofBlock bl)))) :=
          fun m hm => ⟨⟨⟨hm.1.chain.blocks, hm.1.chain.index, hm.1.chain.outputs⟩, hm.1.pool⟩, hm.2⟩
        exact Keeps.bind hback fun _ => Keeps.bind purge fun _ =>
          Keeps.bind invalid fun _ => Keeps.pure _
      | some u =>
        refine Keeps.bind (keeps_stillDecodes (keeps_onChain (keeps_addTransactionFromBlock _ _ _ _))
          (keeps_nodeAliases_onChain (keeps_aliasesDecode_addTransaction hgood.aliasKey _ _ _)))
          fun e => ?_
        cases e with
        | none => exact Keeps.bind hback fun _ => Keeps.bind purge fun _ => Keeps.pure _
        | some entry =>
          refine Keeps.bind (ih (k + 1)) fun taken => ?_
          cases taken <;> exact Keeps.pure _

/-- Appending the block leaves the alias table, the index being in step. -/
theorem appendBlock_aliases (env : Env) (id : Hash) (bei : BlockEntry) {s : Storage}
    (hsync : s.mBlocksIndex.length = s.mBlocks.length) :
    (stateOf (appendBlock env id bei s)).mAliases = s.mAliases := by
  cases hpad : pushBlockScratchpadData env bei.bl s.mScratchpad with
  | error e =>
    unfold appendBlock
    rw [bind_of_ok (modify_apply _ s), bind_of_error
      (appendScratchpad_of_error (s := { s with mBlocksIndex := s.mBlocksIndex ++ [id] }) hpad)]
    rfl
  | ok pad =>
    have happ : ∃ s', appendBlock env id bei s = .ok ⟨⟩ s' := appendBlock_of_scratchpad hpad hsync
    obtain ⟨s', happ⟩ := happ
    obtain ⟨_, -, hs'⟩ := appendBlock_ok happ
    rw [happ, stateOf_ok, hs' hsync]
    rfl

/-- The end of a push enters the coinbase, whose alias is never checked. -/
theorem nodeAliases_finishBlock {n₀ m : Node} (hn₀ : Sound env (TxDecodes env) n₀) (bl : Block)
    (id : Hash) (coinbase : TransactionEntry) (taken : List TakenTx)
    (hm : StillDecodes env n₀ m) :
    NodeAliases env (stateOf (finishBlock env now bl id coinbase taken m)) := by
  have purge := keeps_nodeAliases_purgeBlockData env now bl taken.length
  unfold finishBlock
  cases hv : validateMinerTransaction env m.chain.mBlocks bl (cumulativeBlockSize env bl taken)
      (feeSummary taken) (alreadyGeneratedCoins m.chain.mBlocks) with
  | error e =>
    rw [bind_of_error (readChain_of_error hv)]
    exact hm.2
  | ok v =>
    rw [bind_of_ok (readChain_of_ok hv)]
    cases v with
    | none => exact Keeps.bind purge (fun _ => Keeps.pure _) m hm.2
    | some v =>
      simp only
      rw [bind_of_ok (get_apply m)]
      split
      · exact Keeps.bind purge (fun _ => Keeps.pure _) m hm.2
      · -- the index is in step, so nothing is rebuilt
        have haliases := appendBlock_aliases env id
          (newBlockEntry env m.chain bl coinbase taken v.1 v.2) (hn₀.of_quiet hm.1).sync
        cases happ : appendBlock env id (newBlockEntry env m.chain bl coinbase taken v.1 v.2)
            m.chain with
        | ok u s' =>
          rw [happ] at haliases
          rw [bind_of_ok (onChain_of_ok happ)]
          exact AliasesDecode.congr hm.2 haliases
        | error e s' =>
          rw [happ] at haliases
          rw [bind_of_error (onChain_of_error happ)]
          exact AliasesDecode.congr hm.2 haliases

/-- A push of a block whose coinbase alias decodes. -/
theorem nodeAliases_push (now : Nat) {n : Node} (hn : Sound env (TxDecodes env) n) (ha : NodeAliases env n)
    {bl : Block} (hbl : AliasDecodes env bl.minerTx.toTransactionPrefix) (id : Hash) :
    NodeAliases env (stateOf (handleBlockToMainChain env now bl id n)) := by
  unfold handleBlockToMainChain
  rw [bind_of_ok (get_apply n)]
  cases checkBlockHeader env now n.chain bl with
  | some v => exact ha
  | none =>
    simp only
    rw [bind_of_ok (onChain_modify _ n), bind_of_ok (get_apply _)]
    generalize hz : ({ n with chain := n.chain.setCheckpointZone n.chain.mBlocks.length } : Node) = z
    have hq : StillDecodes env n z := by
      rw [← hz]
      exact ⟨⟨⟨rfl, rfl, hn.outputs⟩, hn.pool⟩, ha⟩
    split
    · unfold connectBlock
      rw [bind_of_ok (get_apply z)]
      have hadd := keeps_stillDecodes (keeps_onChain (keeps_addTransactionFromBlock bl.minerTx
        (getTransactionHash env bl.minerTx) z.chain.mBlocks.length 0))
        (keeps_nodeAliases_onChain (keeps_aliasesDecode_addTransaction hbl _ _ _)) z hq
      cases hr : onChain (addTransactionFromBlock env bl.minerTx (getTransactionHash env bl.minerTx)
          z.chain.mBlocks.length 0) z with
      | error e m =>
        rw [hr] at hadd
        rw [bind_of_error hr]
        exact hadd.2
      | ok coinbase m =>
        rw [hr] at hadd
        rw [bind_of_ok hr]
        cases coinbase with
        | none => exact hadd.2
        | some coinbase =>
          simp only
          have htake := keeps_nodeAliases_takeTransactions now hn.txs bl id 0 bl.txHashes m
            hadd
          cases ht : takeTransactions env now bl id 0 bl.txHashes m with
          | error e m' =>
            rw [ht] at htake
            rw [bind_of_error ht]
            exact htake.2
          | ok taken m' =>
            rw [ht] at htake
            rw [bind_of_ok ht]
            cases taken with
            | none => exact htake.2
            | some taken => exact nodeAliases_finishBlock hn bl id coinbase taken htake
    · exact hq.2

end

/-! ## The transactions of the blocks -/

/-- Every output key of every transaction decodes, coinbases included. -/
def BlocksDecode (env : Env) (blocks : List BlockEntry) : Prop :=
  ∀ e ∈ blocks, ∀ t ∈ e.transactions, KeysDecode env t.tx.toTransactionPrefix

theorem blocksDecode_forgetFlags {env : Env} {bs : List BlockEntry} :
    BlocksDecode env (forgetFlags bs) ↔ BlocksDecode env bs :=
  allTxs_forgetFlags (KeysDecode env)

theorem BlocksDecode.congr {env : Env} {bs bs' : List BlockEntry} (h : BlocksDecode env bs)
    (hb : forgetFlags bs' = forgetFlags bs) : BlocksDecode env bs' := by
  rw [← blocksDecode_forgetFlags, hb, blocksDecode_forgetFlags]
  exact h

/-- What the keys of a node are: those of the pool, of the blocks and of the
alias histories all decode. -/
structure Decodes (env : Env) (n : Node) : Prop where
  sound : Sound env (TxDecodes env) n
  blocks : BlocksDecode env n.chain.mBlocks
  aliases : NodeAliases env n

section

variable {env : Env} {now : Nat} {n n' : Node}

theorem Decodes.of_quiet (h : Decodes env n) (hq : Quiet env (TxDecodes env) n n')
    (ha : NodeAliases env n') : Decodes env n' :=
  ⟨h.sound.of_quiet hq, h.blocks.congr hq.chain.blocks, ha⟩

/-- A block was added: its transactions came from the pool, its coinbase is assumed to decode. -/
theorem Decodes.of_connected {bl : Block} (h : Decodes env n)
    (c : Connected env now bl (getBlockHash env bl) n n')
    (hbl : KeysDecode env bl.minerTx.toTransactionPrefix) (ha : NodeAliases env n') :
    Decodes env n' := by
  refine ⟨c.sound h.sound, ?_, ha⟩
  have hblocks : n'.chain.mBlocks = c.m.chain.mBlocks ++ [c.entry] := by
    rw [c.chain_eq h.sound.sync]
    rfl
  obtain ⟨-, -, htaken⟩ := c.txs.pool (G := TxDecodes env) h.sound.pool
  intro e he t ht
  rw [hblocks] at he
  rcases List.mem_append.1 he with he | he
  · exact (h.blocks.congr c.forgetFlags_eq) e he t ht
  · rw [List.mem_singleton.1 he, c.entry_transactions] at ht
    rcases List.mem_cons.1 ht with rfl | ht
    · rw [c.coinbase_tx]
      exact hbl
    · obtain ⟨t', ht', rfl⟩ := List.mem_map.1 ht
      exact (htaken t' ht').good.keys

/-- A push, accepted, refused or thrown out of. -/
theorem Decodes.push (h : Decodes env n) {bl : Block}
    (hbl : TxDecodes env bl.minerTx.toTransactionPrefix) :
    Decodes env (stateOf (handleBlockToMainChain env now bl (getBlockHash env bl) n)) := by
  have ha := nodeAliases_push now h.sound h.aliases hbl.aliasKey (getBlockHash env bl)
  have ho := handleBlockToMainChain_addedOrQuiet h.sound now bl (getBlockHash env bl)
  cases hr : handleBlockToMainChain env now bl (getBlockHash env bl) n with
  | ok v n' =>
    rw [hr] at ha ho
    rcases ho with rfl | hq
    · obtain ⟨c⟩ := handleBlockToMainChain_added hr
      exact h.of_connected c hbl.keys ha
    · exact h.of_quiet hq ha
  | error e n' =>
    rw [hr] at ha ho
    exact h.of_quiet ho ha

/-- A pop, with or without an exception. -/
theorem Decodes.pop (h : Decodes env n) :
    Decodes env (stateOf (popBlockFromBlockchain env now n)) := by
  have ha := keeps_nodeAliases_popBlock env now n h.aliases
  have ho := popBlock_shortenedOrQuiet h.sound now
  cases hr : popBlockFromBlockchain env now n with
  | ok r n' =>
    rw [hr] at ha ho
    cases r with
    | true =>
      refine ⟨ho.sound, ?_, ha⟩
      obtain ⟨e, he⟩ := ho.blocks
      have hall := blocksDecode_forgetFlags.2 h.blocks
      rw [he] at hall
      exact blocksDecode_forgetFlags.1 fun x hx => hall x (List.mem_append_left _ hx)
    | false => exact h.of_quiet ho ha
  | error e n' =>
    rw [hr] at ha ho
    exact h.of_quiet ho ha

end

/-- Whatever is pushed has a coinbase that decodes. -/
theorem decodes_invariant (env : Env) :
    FenceInvariant env 0 [] (fun b => TxDecodes env b.minerTx.toTransactionPrefix) (Decodes env) := by
  refine ⟨fun _ _ => List.not_mem_nil, fun now bl n hbl _ hn => hn.push hbl,
    fun now n _ _ hn => hn.pop, fun n height _ hn => ?_, fun n alts invalid hn => ?_⟩
  · exact ⟨⟨hn.sound.index, hn.sound.outputs, hn.sound.txs, hn.sound.pool⟩, hn.blocks, hn.aliases⟩
  · exact ⟨⟨hn.sound.index, hn.sound.outputs, hn.sound.txs, hn.sound.pool⟩, hn.blocks, hn.aliases⟩

/-! ## Runs -/

/-- The states of every run whose calls all meet `C`. -/
inductive EventRun (env : Env) (C : Event → Prop) : Node → Prop where
  | genesis {checkpoints : Checkpoints} {now depth : Nat} {bl : Block} {n : Node}
      (hc : C (.newBlock bl))
      (h : addNewBlock env now depth bl (Node.initial checkpoints) = .ok .added n) :
      EventRun env C n
  | step {n n' : Node} {now depth : Nat} {ev : Event} (hn : EventRun env C n) (hc : C ev)
      (h : EndsIn (runEvent env now depth ev n) n') : EventRun env C n'

/-- What nothing checks: the output keys of a coinbase, and the address of an
alias. -/
def EventDecodes (env : Env) : Event → Prop
  | .incomingTx blob _ => ∀ tx, env.parseTx blob = some tx → AliasDecodes env tx.toTransactionPrefix
  | .newBlock bl => TxDecodes env bl.minerTx.toTransactionPrefix

/-- The node is as the invariant has it. -/
def DecodingNode (env : Env) (n : Node) : Prop :=
  FenceInvariant.Holds env 0 [] (fun b => TxDecodes env b.minerTx.toTransactionPrefix)
    (Decodes env) n

/-- Before `init` there is no key at all. -/
theorem decodingNode_initial (env : Env) (checkpoints : Checkpoints) :
    DecodingNode env (Node.initial checkpoints) := by
  refine ⟨⟨Sound.initial env _ checkpoints, Nat.zero_le _, fun i id _ hi => absurd hi (by omega),
    fun i e he _ => ?_, fun id e he => ?_⟩, Sound.initial env _ checkpoints, fun e he => ?_, ?_⟩
  · cases he
  · have hnone : (∅ : Map Hash BlockEntry)[id]? = none := Std.ExtTreeMap.getElem?_empty
    cases hnone.symm.trans he
  · cases he
  · intro name ai hai
    have hempty : aliasHistory (Node.initial checkpoints).chain name = [] :=
      Std.ExtTreeMap.getD_empty
    rw [hempty] at hai
    cases hai

/-- A transaction enters the pool. -/
theorem DecodingNode.incomingTx {env : Env} {now : Nat} {blob : Blob} {kept : Bool} {n : Node}
    (h : DecodingNode env n) (hc : EventDecodes env (.incomingTx blob kept)) :
    DecodingNode env (stateOf (handleIncomingTx env now blob kept n)) := by
  have hadmitted : AdmittedBlob env (TxDecodes env) blob := by
    intro tx hparse s kept hsem _ _
    exact ⟨keysDecode_of_semantic hsem, hc tx hparse⟩
  obtain ⟨pool, hstate, hpool⟩ := handleIncomingTx_poolOnly hadmitted now kept h.2.sound.pool
  obtain ⟨pool', hstate', hpool'⟩ :=
    handleIncomingTx_poolOnly ((guaranteed_true env).admitted blob) now kept h.1.sound.pool
  obtain rfl : pool = pool' := congrArg Node.pool (hstate.symm.trans hstate')
  rw [hstate]
  exact ⟨⟨⟨h.1.sound.index, h.1.sound.outputs, h.1.sound.txs, hpool'⟩, h.1.floor, h.1.low, h.1.main,
    h.1.alts⟩, ⟨h.2.sound.index, h.2.sound.outputs, h.2.sound.txs, hpool⟩, h.2.blocks, h.2.aliases⟩

theorem DecodingNode.newBlock {env : Env} {bl : Block} {n : Node} (h : DecodingNode env n)
    (now depth : Nat) (hc : EventDecodes env (.newBlock bl)) :
    DecodingNode env (stateOf (addNewBlock env now depth bl n)) := by
  have hinv := decodes_invariant env
  have halt := hinv.keeps_handleAlternativeBlock now depth hc (getBlockHash env bl)
  have hmain := hinv.keeps_push now hc
  exact Keeps.bind Keeps.get (fun _ => Keeps.ite (Keeps.pure _) (Keeps.ite halt hmain)) n h

theorem EventRun.decodes {env : Env} {n : Node} (hn : EventRun env (EventDecodes env) n) :
    DecodingNode env n := by
  induction hn with
  | @genesis checkpoints now depth bl n hc hg =>
    have h := (decodingNode_initial env checkpoints).newBlock now depth hc
    rw [hg] at h
    exact h
  | @step n n' now depth ev _ hc hends ih =>
    rw [hends.eq_stateOf]
    cases ev with
    | incomingTx blob kept =>
      exact Keeps.bind (P := DecodingNode env) (fun m hm => hm.incomingTx hc) (fun _ => Keeps.pure _) n ih
    | newBlock bl =>
      exact Keeps.bind (P := DecodingNode env) (fun m hm => hm.newBlock now depth hc) (fun _ => Keeps.pure _) n ih

/-! ## The keys that reach a check -/

section

variable {env : Env} {now : Nat} {s : Storage}

theorem BlocksDecode.scanOutput (h : BlocksDecode env s.mBlocks) {outs : AmountOuts} {size : Nat}
    {i : UInt64} {k : PublicKey × Nat} (hk : s.scanOutput env now outs size i = .ok (some k)) :
    env.checkKey k.1 = true := by
  unfold Storage.scanOutput at hk
  split at hk
  · cases hk
  · next idx out _ =>
    split at hk
    · cases hk
    · next txe hr =>
      split at hk
      · cases hk
      · split at hk
        · cases hk
        · next o ho =>
          split at hk
          · next key mixAttr ht =>
            split at hk
            · cases hk
              obtain ⟨e, he, hat⟩ := transactionByIndex_eq_ok.1 hr
              exact h e (List.mem_of_getElem? he) txe (List.mem_of_getElem? hat) o
                (List.mem_of_getElem? ho) key mixAttr ht
            · cases hk
          · cases hk

theorem BlocksDecode.scanOutputs (h : BlocksDecode env s.mBlocks) {outs : AmountOuts} {size : Nat}
    {offs : List UInt64} {ring : List (PublicKey × Nat)}
    (hr : s.scanOutputs env now outs size offs = .ok (some ring)) :
    ∀ k ∈ ring, env.checkKey k.1 = true := by
  induction offs generalizing ring with
  | nil =>
    cases hr
    exact fun k hk => absurd hk List.not_mem_nil
  | cons i rest ih =>
    unfold Storage.scanOutputs at hr
    split at hr
    · cases hr
    · cases hr
    · next k hk =>
      split at hr
      · next ks hks =>
        cases hr
        exact List.forall_mem_cons.2 ⟨h.scanOutput hk, ih hks⟩
      · next hne => exact absurd hr (hne ring)

end

/-- In a run where the keys nothing checks decode, every key of every ring and
of every alias that can be updated decodes. -/
theorem keys_at_hand_decode {env : Env} {n : Node} (hn : EventRun env (EventDecodes env) n) :
    (∀ now amount keyOffsets ring,
      n.chain.scanOutputkeysForIndexes env now amount keyOffsets = .ok (some ring) →
        ∀ k ∈ ring, env.checkKey k.1 = true) ∧
    ∀ name last, (aliasHistory n.chain name).getLast? = some last →
      env.checkKey last.mAddress.mSpendPublicKey = true := by
  obtain ⟨-, hdecodes⟩ := hn.decodes
  constructor
  · intro now amount keyOffsets ring hr
    unfold Storage.scanOutputkeysForIndexes at hr
    split at hr
    · cases hr
    · split at hr
      · cases hr
      · exact hdecodes.blocks.scanOutputs hr
  · intro name last hlast
    exact hdecodes.aliases name last (List.mem_of_getLast? hlast)

namespace Devnet

/-- The address key of `aliasExtra`. -/
def aliasKey : PublicKey := BitVec.ofNat 256 (podOfBytes (List.replicate 32 2))

/-- The network with two strings that are no points: the key of every coinbase's
first output and the key of an alias. -/
def pointsEnv : Env := { env with checkKey := fun key => decide (key ≠ 5 ∧ key ≠ aliasKey) }

/-- A line with an alias in the coinbase of its first block, long enough for
that output to be spent. -/
def aliasLine : List Event :=
  .newBlock blockOfAlias :: (List.range 58).map fun k => .newBlock (mainBlock (k + 2))

def aliasLineNode : Node :=
  (runFromGenesis pointsEnv now 3 ∅ genesis aliasLine).getD (Node.initial ∅)

/-- The keys a ring of the first output consists of. -/
def firstRing (env : Env) (n : Node) : List PublicKey :=
  ((n.chain.scanOutputkeysForIndexes env now unit [0]).toOption.join.getD []).map (·.1)

end Devnet

theorem exists_ring {env : Env} {n : Node} {key : PublicKey} (h : key ∈ Devnet.firstRing env n) :
    ∃ ring, n.chain.scanOutputkeysForIndexes env Devnet.now Devnet.unit [0] = .ok (some ring) ∧
      ∃ k ∈ ring, k.1 = key := by
  unfold Devnet.firstRing at h
  obtain ⟨k, hk, rfl⟩ := List.mem_map.1 h
  cases hr : n.chain.scanOutputkeysForIndexes env Devnet.now Devnet.unit [0] with
  | error e =>
    rw [hr] at hk
    cases hk
  | ok r =>
    rw [hr] at hk
    cases r with
    | none => cases hk
    | some ring => exact ⟨ring, rfl, k, hk, rfl⟩

/-- A coinbase puts keys into the state that nobody checked: one that a ring can
ask for, and one that an alias update is checked against. -/
theorem undecodable_keys_at_hand :
    ∃ n, Reachable Devnet.pointsEnv n ∧
      (∃ ring, n.chain.scanOutputkeysForIndexes Devnet.pointsEnv Devnet.now Devnet.unit [0] =
        .ok (some ring) ∧ ∃ k ∈ ring, Devnet.pointsEnv.checkKey k.1 = false) ∧
      ∃ name last, (aliasHistory n.chain name).getLast? = some last ∧
        Devnet.pointsEnv.checkKey last.mAddress.mSpendPublicKey = false := by
  have heval : (runFromGenesis Devnet.pointsEnv Devnet.now 3 ∅ Devnet.genesis
        Devnet.aliasLine).isSome = true ∧
      5 ∈ Devnet.firstRing Devnet.pointsEnv Devnet.aliasLineNode ∧
      ((aliasHistory Devnet.aliasLineNode.chain [97]).getLast?).map (·.mAddress.mSpendPublicKey) =
        some Devnet.aliasKey ∧
      Devnet.pointsEnv.checkKey 5 = false ∧ Devnet.pointsEnv.checkKey Devnet.aliasKey = false := by
    decide +kernel
  obtain ⟨hrun, hring, hlast, hfive, hkey⟩ := heval
  obtain ⟨n, hn⟩ := Option.isSome_iff_exists.1 hrun
  have hnode : Devnet.aliasLineNode = n := by rw [Devnet.aliasLineNode, hn]; rfl
  obtain ⟨ring, hr, k, hk, hk5⟩ := exists_ring hring
  obtain ⟨last, hat, hlastkey⟩ := Option.map_eq_some_iff.1 hlast
  refine ⟨Devnet.aliasLineNode, hnode ▸ reachable_of_runFromGenesis hn, ⟨ring, hr, k, hk, hk5 ▸ hfive⟩,
    [97], last, hat, ?_⟩
  rw [hlastkey]
  exact hkey

theorem Reachable.eventRun {env : Env} {C : Event → Prop} (hC : ∀ ev, C ev) {n : Node}
    (h : Reachable env n) : EventRun env C n := by
  induction h with
  | genesis hg => exact .genesis (hC _) hg
  | step _ hends ih => exact .step ih (hC _) hends

/-- Where every string is a point, the key of a ring is one. -/
theorem keys_at_hand_decode_longLine :
    ∃ n ring, EventRun Devnet.env (EventDecodes Devnet.env) n ∧
      n.chain.scanOutputkeysForIndexes Devnet.env Devnet.now Devnet.unit [0] = .ok (some ring) ∧
      ring ≠ [] ∧ ∀ k ∈ ring, Devnet.env.checkKey k.1 = true := by
  have heval : (Devnet.run ∅ Devnet.longLine).isSome = true ∧
      5 ∈ Devnet.firstRing Devnet.env (Devnet.node ∅ Devnet.longLine) := by decide +kernel
  obtain ⟨hrun, hring⟩ := heval
  have hn := (Devnet.reachable_node ∅ Devnet.longLine hrun).eventRun
    (C := EventDecodes Devnet.env) fun ev => by
      cases ev with
      | incomingTx blob kept => exact fun tx _ ai _ => rfl
      | newBlock bl => exact ⟨fun o _ key mixAttr _ => rfl, fun ai _ => rfl⟩
  obtain ⟨ring, hr, k, hk, -⟩ := exists_ring hring
  exact ⟨_, ring, hn, hr, List.ne_nil_of_mem hk, (keys_at_hand_decode hn).1 _ _ _ _ hr⟩

end DarknetSpace
