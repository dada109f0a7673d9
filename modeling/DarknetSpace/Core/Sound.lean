import DarknetSpace.Core.Invariant
import DarknetSpace.Chain.Alias
import DarknetSpace.Chain.Connected
import DarknetSpace.Chain.Later

/-!
# What holds of every node

The facts about a node that everything else rests on: the block index lists
the ids of the blocks, no amount is listed without outputs, the pool files a
transaction under its own id with its own fee, and every transaction in the
pool or in a block passed the checks of `core::handle_incoming_tx`. The last is
stated for any property `G` those checks guarantee.

They survive the calls that go wrong, too. A call that does not push or pop a
block is `Quiet`: the blocks stay (up to flags), and the rest stays sound, even
where it no longer matches the blocks.
-/

namespace DarknetSpace

open StateExn

/-! ## The pool -/

/-- `take_tx` takes the one transaction out. -/
theorem takeTx_transactions {env : Env} {p p' : TxMemoryPool} {id : Hash} {txd : TxDetails}
    (h : p.takeTx env id = some (txd, p')) :
    p.mTransactions[id]? = some txd ∧ p'.mTransactions = p.mTransactions.erase id := by
  unfold TxMemoryPool.takeTx at h
  split at h
  · cases h
  · next txd' hm =>
    obtain ⟨rfl, rfl⟩ := Prod.mk.inj (Option.some.inj h)
    refine ⟨hm, ?_⟩
    unfold TxMemoryPool.removeAliasTxPair
    split <;> rfl

/-- Every entry of the pool has `E`. -/
def AllEntries (E : Hash → TxDetails → Prop) (p : TxMemoryPool) : Prop :=
  ∀ (id : Hash) txd, p.mTransactions[id]? = some txd → E id txd

namespace AllEntries

variable {env : Env} {E : Hash → TxDetails → Prop} {p : TxMemoryPool}

theorem congr {p' : TxMemoryPool} (h : AllEntries E p) (hp : p'.mTransactions = p.mTransactions) :
    AllEntries E p' := by
  unfold AllEntries
  rw [hp]
  exact h

/-- Taking a transaction out. -/
theorem takeTx {p' : TxMemoryPool} {id : Hash} {txd : TxDetails}
    (ht : p.takeTx env id = some (txd, p')) (h : AllEntries E p) : AllEntries E p' := by
  intro id' txd' hm
  rw [(takeTx_transactions ht).2, Std.ExtTreeMap.getElem?_erase] at hm
  split at hm
  · cases hm
  · exact h id' txd' hm

/-- Putting an entry with the property in. -/
theorem insertTx {id : Hash} {txd : TxDetails} (h : AllEntries E p) (htxd : E id txd)
    (tvc : TxVerificationContext) : AllEntries E (p.insertTx id txd tvc).2 := by
  unfold TxMemoryPool.insertTx
  split
  · exact h
  · intro id' txd' hm
    rw [Std.ExtTreeMap.getElem?_insert] at hm
    split at hm
    · next hc =>
      cases hm
      rw [← Std.LawfulEqCmp.eq_of_compare hc]
      exact htxd
    · exact h id' txd' hm

/-- Dropping the rival of an alias takes a transaction out. -/
theorem dropAliasRival (h : AllEntries E p) (name : Blob) :
    AllEntries E (p.dropAliasRival env name) := by
  unfold TxMemoryPool.dropAliasRival
  split
  · exact h
  · cases ht : p.takeTx env (p.findAlias name) with
    | none => exact h
    | some r => exact h.takeTx ht

/-- The alias table is none of the entries. -/
theorem addAliasTxPair (h : AllEntries E p) (name : Blob) (id : Hash) :
    AllEntries E (p.addAliasTxPair name id).2 := by
  refine h.congr ?_
  unfold TxMemoryPool.addAliasTxPair
  split
  · rfl
  · split <;> rfl

/-- `add_tx`, whose new entry is the only one to be shown. -/
theorem addTx {p' : TxMemoryPool} {now : Nat} {chain : Storage} {tx : Transaction} {kept : Bool}
    {name : Blob} {v : TxMemoryPool.Verdict} (h : AllEntries E p)
    (hnew : ∀ i o, TxMemoryPool.checkAmounts tx.toTransactionPrefix = some (i, o) →
      ∀ kept maxUsed, E (getTransactionHash env tx)
        (TxMemoryPool.details env now tx (i - o) kept maxUsed))
    (ha : p.addTx env now chain tx kept name = .ok (v, p')) : AllEntries E p' := by
  obtain ⟨-, rfl⟩ | ⟨i, o, hc, ⟨-, -, hins⟩ | ⟨-, -, _, -, hins⟩⟩ := TxMemoryPool.addTx_cases ha
  · exact h
  · obtain ⟨-, rfl⟩ := Prod.mk.inj hins
    exact (h.dropAliasRival name).insertTx (hnew i o hc _ _) _
  · obtain ⟨-, rfl⟩ := Prod.mk.inj hins
    exact (h.addAliasTxPair name _).insertTx (hnew i o hc _ _) _

end AllEntries

/-- A pool entry is filed under its id, with its fee, and satisfies `G`. -/
structure PoolEntrySound (env : Env) (G : TransactionPrefix → Prop) (id : Hash) (txd : TxDetails) :
    Prop where
  id_eq : getTransactionHash env txd.tx = id
  good : G txd.tx.toTransactionPrefix
  fee : ∃ i o, TxMemoryPool.checkAmounts txd.tx.toTransactionPrefix = some (i, o) ∧ txd.fee = i - o

/-- Every entry of the pool has the property. -/
def PoolSound (env : Env) (G : TransactionPrefix → Prop) (p : TxMemoryPool) : Prop :=
  ∀ (id : Hash) txd, p.mTransactions[id]? = some txd → PoolEntrySound env G id txd

section

variable {env : Env} {G : TransactionPrefix → Prop} {p : TxMemoryPool}

theorem PoolSound.takeTx (h : PoolSound env G p) {id : Hash} {txd : TxDetails} {p' : TxMemoryPool}
    (ht : p.takeTx env id = some (txd, p')) : PoolEntrySound env G id txd ∧ PoolSound env G p' :=
  ⟨h id txd (takeTx_transactions ht).1, AllEntries.takeTx ht h⟩

/-- What `add_tx` lets in has the property. -/
theorem PoolSound.addTx (h : PoolSound env G p) {now : Nat} {chain : Storage} {tx : Transaction}
    {kept : Bool} {name : Blob} {v : TxMemoryPool.Verdict} {p' : TxMemoryPool}
    (hG : G tx.toTransactionPrefix) (ha : p.addTx env now chain tx kept name = .ok (v, p')) :
    PoolSound env G p' :=
  AllEntries.addTx h (fun i o hc _ _ => ⟨rfl, hG, i, o, hc, rfl⟩) ha

end

/-! ## The chain -/

/-- Every transaction of the blocks is a coinbase or satisfies `G`. -/
def TxsGood (G : TransactionPrefix → Prop) (blocks : List BlockEntry) : Prop :=
  ∀ e ∈ blocks, ∀ t ∈ e.transactions,
    isCoinbase t.tx.toTransactionPrefix = true ∨ G t.tx.toTransactionPrefix

/-- A property of every transaction of the blocks does not look at flags. -/
theorem allTxs_forgetFlags (A : TransactionPrefix → Prop) {bs : List BlockEntry} :
    (∀ e ∈ forgetFlags bs, ∀ t ∈ e.transactions, A t.tx.toTransactionPrefix) ↔
      ∀ e ∈ bs, ∀ t ∈ e.transactions, A t.tx.toTransactionPrefix := by
  unfold forgetFlags
  constructor
  · intro h e he t ht
    exact h e.forgetFlags (List.mem_map_of_mem he) t.forgetFlags (List.mem_map_of_mem ht)
  · intro h e he t ht
    obtain ⟨e', he', rfl⟩ := List.mem_map.1 he
    obtain ⟨t', ht', rfl⟩ := List.mem_map.1 ht
    exact h e' he' t' ht'

theorem txsGood_forgetFlags {G : TransactionPrefix → Prop} {bs : List BlockEntry} :
    TxsGood G (forgetFlags bs) ↔ TxsGood G bs :=
  allTxs_forgetFlags fun tx => isCoinbase tx = true ∨ G tx

theorem TxsGood.congr {G : TransactionPrefix → Prop} {bs bs' : List BlockEntry} (h : TxsGood G bs)
    (hb : forgetFlags bs' = forgetFlags bs) : TxsGood G bs' := by
  rw [← txsGood_forgetFlags, hb, txsGood_forgetFlags]
  exact h

theorem TxsGood.read {G : TransactionPrefix → Prop} {s : Storage} {idx : TransactionIndex}
    {txe : TransactionEntry} (h : TxsGood G s.mBlocks) (hr : s.transactionByIndex idx = .ok txe) :
    isCoinbase txe.tx.toTransactionPrefix = true ∨ G txe.tx.toTransactionPrefix := by
  obtain ⟨e, he, ht⟩ := transactionByIndex_eq_ok.1 hr
  exact h e (List.mem_of_getElem? he) txe (List.mem_of_getElem? ht)

/-- The ids of the blocks. -/
def blockIds (env : Env) (blocks : List BlockEntry) : List Hash :=
  blocks.map fun e => getBlockHash env e.bl

theorem blockIds_congr {env : Env} {bs bs' : List BlockEntry}
    (h : forgetFlags bs' = forgetFlags bs) : blockIds env bs' = blockIds env bs := by
  have := congrArg (List.map fun e : BlockEntry => getBlockHash env e.bl) h
  rwa [forgetFlags, forgetFlags, List.map_map, List.map_map] at this

/-- What holds of every node; `G` is what the checks on incoming transactions
guarantee. -/
structure Sound (env : Env) (G : TransactionPrefix → Prop) (n : Node) : Prop where
  index : n.chain.mBlocksIndex = blockIds env n.chain.mBlocks
  outputs : NoEmptyOuts n.chain.mOutputs
  txs : TxsGood G n.chain.mBlocks
  pool : PoolSound env G n.pool

theorem Sound.sync {env : Env} {G : TransactionPrefix → Prop} {n : Node} (h : Sound env G n) :
    n.chain.mBlocksIndex.length = n.chain.mBlocks.length := by
  rw [h.index, blockIds, List.length_map]

/-! ## Quiet steps -/

/-- The blocks and their index are as in `s₀`, and no amount is empty. -/
structure ChainQuiet (s₀ s : Storage) : Prop where
  blocks : forgetFlags s.mBlocks = forgetFlags s₀.mBlocks
  index : s.mBlocksIndex = s₀.mBlocksIndex
  outputs : NoEmptyOuts s.mOutputs

/-- No block was pushed or popped since `n₀`, and the rest is sound. -/
structure Quiet (env : Env) (G : TransactionPrefix → Prop) (n₀ n : Node) : Prop where
  chain : ChainQuiet n₀.chain n.chain
  pool : PoolSound env G n.pool

section

variable {env : Env} {G : TransactionPrefix → Prop} {n₀ n : Node} {s₀ : Storage}

theorem Sound.quiet (h : Sound env G n) : Quiet env G n n :=
  ⟨⟨rfl, rfl, h.outputs⟩, h.pool⟩

theorem Sound.of_quiet (h : Sound env G n₀) (hq : Quiet env G n₀ n) : Sound env G n :=
  ⟨by rw [hq.chain.index, h.index, blockIds_congr hq.chain.blocks], hq.chain.outputs,
    h.txs.congr hq.chain.blocks, hq.pool⟩

/-- What leaves the frame leaves the blocks. -/
theorem ChainQuiet.of_frame {s s' : Storage} (h : ChainQuiet s₀ s) (hf : s'.frame = s.frame)
    (ho : NoEmptyOuts s'.mOutputs) : ChainQuiet s₀ s' := by
  have hb : forgetFlags s'.mBlocks = forgetFlags s.mBlocks := by
    have := congrArg Storage.mBlocks hf; exact this
  have hi : s'.mBlocksIndex = s.mBlocksIndex := by
    have := congrArg Storage.mBlocksIndex hf; exact this
  exact ⟨hb.trans h.blocks, hi.trans h.index, ho⟩

/-- What the chain keeps, the node keeps. -/
theorem keeps_onChain {α : Type} {x : StorageM α} (h : Keeps (ChainQuiet n₀.chain) x) :
    Keeps (Quiet env G n₀) (onChain x) := by
  intro n hn
  have hx := h n.chain hn.chain
  cases hr : x n.chain with
  | ok a s =>
    rw [hr] at hx
    rw [onChain_of_ok hr]
    exact ⟨hx, hn.pool⟩
  | error e s =>
    rw [hr] at hx
    rw [onChain_of_error hr]
    exact ⟨hx, hn.pool⟩

/-- Purging key images. -/
theorem keeps_purgeKeyimages (tx : Transaction) (strict : Bool) :
    Keeps (ChainQuiet s₀) (purgeTransactionKeyimagesFromBlockchain env tx strict) := by
  intro s hs
  have hw := purgeTransactionInputs_withoutSpends env strict s.withoutSpends tx.vin s rfl
  refine hs.of_frame (Storage.frame_of_withoutSpends hw) ?_
  have ho : (stateOf (purgeTransactionInputs env strict tx.vin s)).mOutputs = s.mOutputs := by
    have := congrArg Storage.mOutputs hw; exact this
  exact ho ▸ hs.outputs

/-- Taking an alias back. -/
theorem keeps_unprocess (tx : Transaction) :
    Keeps (ChainQuiet s₀) (unprocessBlockchainTxExtra env tx) := by
  intro s hs
  have hw := unprocessBlockchainTxExtra_withoutAliases env tx s
  refine hs.of_frame (Storage.frame_of_withoutAliases hw) ?_
  have ho : (stateOf (unprocessBlockchainTxExtra env tx s)).mOutputs = s.mOutputs := by
    have := congrArg Storage.mOutputs hw; exact this
  exact ho ▸ hs.outputs

/-- Popping outputs erases an amount with its last output. -/
theorem keeps_noEmpty_popOutputs (txId : Hash) (outs : List (TxOut × Nat)) :
    Keeps (fun s => NoEmptyOuts s.mOutputs) (popOutputs env txId outs) := by
  induction outs with
  | nil => exact Keeps.pure true
  | cons p rest ih =>
    intro s hs
    simp only [popOutputs]
    split
    · exact hs
    · split
      · exact hs
      · split
        · exact hs
        · split
          · exact hs
          · split
            · exact hs
            · exact ih _ (hs.popOutput _ _)

theorem keeps_popTransaction (tx : Transaction) (txId : Hash) :
    Keeps (ChainQuiet s₀) (popTransactionFromGlobalIndex env tx txId) := by
  intro s hs
  have hw := popOutputs_withoutOutputs env txId s.withoutOutputs tx.vout.zipIdx.reverse s rfl
  exact hs.of_frame (Storage.frame_of_withoutOutputs hw)
    (keeps_noEmpty_popOutputs txId tx.vout.zipIdx.reverse s hs.outputs)

/-- Recording a transaction leaves no amount without outputs. -/
theorem TxRecorded.noEmpty {tx : Transaction} {txId : Hash} {idx : TransactionIndex}
    {s sa s' : Storage} {txe : TransactionEntry} (h : TxRecorded env tx txId idx s sa s' txe)
    (hs : NoEmptyOuts s.mOutputs) : NoEmptyOuts s'.mOutputs := by
  have ha : sa.mOutputs = s.mOutputs := by
    have := congrArg Storage.mOutputs (processBlockchainTxExtra_frame h.extra); exact this
  rw [h.state]
  exact (ha ▸ hs).pushOutputs idx 0 tx.vout

/-- Entering a transaction, with the way back when an input is refused. -/
theorem keeps_addTransactionFromBlock (tx : Transaction) (txId : Hash) (h : Nat) (i : UInt16) :
    Keeps (ChainQuiet s₀) (addTransactionFromBlock env tx txId h i) := by
  intro s hs
  have hf := addTransactionFromBlock_frame env tx txId h i s.frame s rfl
  refine hs.of_frame hf ?_
  obtain ⟨txe, s', sa, hadd, hrec⟩ | ⟨s', hadd, hsame⟩ | ⟨e, s', hadd, hsame⟩ :=
    addTransactionFromBlock_cases env tx txId h i s
  · rw [hadd]
    exact hrec.noEmpty hs.outputs
  · rw [hadd]
    exact hsame.2 ▸ hs.outputs
  · rw [hadd]
    exact hsame.2 ▸ hs.outputs

/-- Returning a transaction with the property to the pool. -/
theorem keeps_returnToPool (now : Nat) {tx : Transaction} (hG : G tx.toTransactionPrefix) :
    Keeps (Quiet env G n₀) (returnToPool env now tx) := by
  intro n hn
  unfold returnToPool
  split
  · next v pool ha => exact ⟨hn.chain, hn.pool.addTx hG ha⟩
  · exact hn

/-- Taking a transaction out of the chain: it has the property, as all of them do. -/
theorem keeps_purgeTransaction (hG : TxsGood G n₀.chain.mBlocks) (now : Nat) (txId : Hash) :
    Keeps (Quiet env G n₀) (purgeTransactionFromBlockchain env now txId) := by
  intro n hn
  unfold purgeTransactionFromBlockchain
  rw [bind_of_ok (get_apply n)]
  cases hi : n.chain.mTransactions[txId]? with
  | none => exact hn
  | some idx =>
    simp only
    cases hr : n.chain.transactionByIndex idx with
    | error e =>
      rw [bind_of_error (readChain_of_error hr)]
      exact hn
    | ok txe =>
      rw [bind_of_ok (readChain_of_ok hr)]
      have hgood := (hG.congr hn.chain.blocks).read hr
      refine Keeps.bind (keeps_onChain (keeps_purgeKeyimages _ _)) (fun _ =>
        Keeps.bind (keeps_onChain (keeps_unprocess _)) fun r => Keeps.ite ?_ (Keeps.pure _)) n hn
      refine Keeps.bind ?_ fun _ => Keeps.bind (keeps_onChain (keeps_popTransaction _ _)) fun _ =>
        Keeps.bind (Keeps.modify fun n hn => ⟨⟨hn.chain.blocks, hn.chain.index, hn.chain.outputs⟩,
          hn.pool⟩) fun _ => Keeps.pure _
      unfold returnOrdinaryToPool
      split
      · exact Keeps.pure _
      · next hcb => exact keeps_returnToPool now (hgood.resolve_left hcb)

/-- Taking the transactions of a block out, by induction on how many are left. -/
theorem keeps_purgeBlockData (env : Env) (hG : TxsGood G n₀.chain.mBlocks) (now : Nat) (bl : Block) (k : Nat) :
    Keeps (Quiet env G n₀) (purgeBlockDataFromBlockchain env now bl k) := by
  have all : ∀ ids, Keeps (Quiet env G n₀) (purgeTransactions env now ids) := by
    intro ids
    induction ids with
    | nil => exact Keeps.pure _
    | cons id rest ih =>
      exact Keeps.bind (keeps_purgeTransaction hG now id) fun _ => Keeps.bind ih fun _ => Keeps.pure _
  exact Keeps.ite (Keeps.pure _) (all _)

/-- Taking the transactions of a new block from the pool, with the way back when one is refused. -/
theorem keeps_takeTransactions (hG : TxsGood G n₀.chain.mBlocks) (now : Nat) (bl : Block)
    (id : Hash) (k : Nat) (ids : List Hash) :
    Keeps (Quiet env G n₀) (takeTransactions env now bl id k ids) := by
  induction ids generalizing k with
  | nil => exact Keeps.pure _
  | cons txId rest ih =>
    intro n hn
    unfold takeTransactions
    rw [bind_of_ok (get_apply n)]
    have purge := keeps_purgeBlockData env hG now bl k
    cases ht : n.pool.takeTx env txId with
    | none => exact Keeps.bind purge (fun _ => Keeps.pure _) n hn
    | some r =>
      obtain ⟨txd, pool⟩ := r
      obtain ⟨hentry, hpool⟩ := hn.pool.takeTx ht
      have hgood : G (prunedTx n.chain.mIsInCheckpointZone txd.tx).toTransactionPrefix := by
        rw [prunedTx_toPrefix]
        exact hentry.good
      simp only
      rw [bind_of_ok (set_apply n { n with pool })]
      have hn' : Quiet env G n₀ { n with pool } := ⟨hn.chain, hpool⟩
      refine Keeps.bind (Keeps.reads _) (fun used => ?_) _ hn'
      cases used with
      | none =>
        have invalid : Keeps (Quiet env G n₀)
            (onChain (modify (addBlockAsInvalid id (BlockEntry.ofBlock bl)))) :=
          keeps_onChain fun s hs => ⟨hs.blocks, hs.index, hs.outputs⟩
        exact Keeps.bind (keeps_returnToPool now hgood) fun _ => Keeps.bind purge fun _ =>
          Keeps.bind invalid fun _ => Keeps.pure _
      | some u =>
        refine Keeps.bind (keeps_onChain (keeps_addTransactionFromBlock _ _ _ _)) fun e => ?_
        cases e with
        | none =>
          exact Keeps.bind (keeps_returnToPool now hgood) fun _ => Keeps.bind purge fun _ =>
            Keeps.pure _
        | some entry =>
          refine Keeps.bind (ih (k + 1)) fun taken => ?_
          cases taken <;> exact Keeps.pure _

/-! ## Pushing a block -/

/-- A block whose coinbase parses has an addendum. -/
theorem pushBlockScratchpadData_of_parse {bl : Block} {ei : TxExtraInfo}
    (h : parseAndValidateTxExtra env bl.minerTx.toTransactionPrefix = .ok (true, ei))
    (pad : List Hash) : ∃ pad', pushBlockScratchpadData env bl pad = .ok pad' := by
  have ha : ∃ a, getBlockScratchpadAddendum env bl = .ok a := by
    unfold getBlockScratchpadAddendum
    rw [h]
    exact ⟨_, rfl⟩
  obtain ⟨a, ha⟩ := ha
  unfold pushBlockScratchpadData pushBlockScratchpadPatch
  rw [ha]
  exact ⟨_, rfl⟩

/-- The call added its block, or was quiet. -/
def AddedOrQuiet (env : Env) (G : TransactionPrefix → Prop) (n₀ : Node) :
    EStateM.Result Exn Node BlockVerdict → Prop
  | .ok v n' => v = .added ∨ Quiet env G n₀ n'
  | .error _ n' => Quiet env G n₀ n'

/-- A push that was refused. -/
theorem AddedOrQuiet.of_keeps {x : NodeM BlockVerdict} (h : Keeps (Quiet env G n₀) x) {n : Node}
    (hn : Quiet env G n₀ n) : AddedOrQuiet env G n₀ (x n) := by
  have hx := h n hn
  unfold AddedOrQuiet
  split
  · next heq => rw [heq] at hx; exact .inr hx
  · next heq => rw [heq] at hx; exact hx

/-- The end of a push adds the block or leaves the chain as it was. -/
theorem finishBlock_addedOrQuiet (hn₀ : Sound env G n₀) (now : Nat) {bl : Block} (id : Hash)
    (coinbase : TransactionEntry) (taken : List TakenTx) {ei : TxExtraInfo}
    (hparse : parseAndValidateTxExtra env bl.minerTx.toTransactionPrefix = .ok (true, ei))
    {m : Node} (hm : Quiet env G n₀ m) :
    AddedOrQuiet env G n₀ (finishBlock env now bl id coinbase taken m) := by
  have purge := keeps_purgeBlockData env hn₀.txs now bl taken.length
  unfold finishBlock
  cases hv : validateMinerTransaction env m.chain.mBlocks bl (cumulativeBlockSize env bl taken)
      (feeSummary taken) (alreadyGeneratedCoins m.chain.mBlocks) with
  | error e =>
    rw [bind_of_error (readChain_of_error hv)]
    exact hm
  | ok v =>
    rw [bind_of_ok (readChain_of_ok hv)]
    cases v with
    | none => exact .of_keeps (Keeps.bind purge fun _ => Keeps.pure _) hm
    | some v =>
      simp only
      rw [bind_of_ok (get_apply m)]
      split
      · exact .of_keeps (Keeps.bind purge fun _ => Keeps.pure _) hm
      · -- the index is in step and the addendum exists, so nothing here can throw
        have hsync : m.chain.mBlocksIndex.length = m.chain.mBlocks.length := (hn₀.of_quiet hm).sync
        obtain ⟨pad, hpad⟩ := pushBlockScratchpadData_of_parse hparse m.chain.mScratchpad
        have happ : ∃ s', appendBlock env id
            (newBlockEntry env m.chain bl coinbase taken v.1 v.2) m.chain = .ok ⟨⟩ s' :=
          appendBlock_of_scratchpad hpad hsync
        obtain ⟨s', happ⟩ := happ
        rw [bind_of_ok (onChain_of_ok happ)]
        exact .inl rfl

/-- A push adds the block or leaves the chain as it was. -/
theorem handleBlockToMainChain_addedOrQuiet (hn : Sound env G n) (now : Nat) (bl : Block)
    (id : Hash) : AddedOrQuiet env G n (handleBlockToMainChain env now bl id n) := by
  unfold handleBlockToMainChain
  rw [bind_of_ok (get_apply n)]
  cases hhead : checkBlockHeader env now n.chain bl with
  | some v => exact .inr hn.quiet
  | none =>
    simp only
    rw [bind_of_ok (onChain_modify _ n), bind_of_ok (get_apply _)]
    generalize hz : ({ n with chain := n.chain.setCheckpointZone n.chain.mBlocks.length } : Node) = z
    have hq : Quiet env G n z := by
      rw [← hz]
      exact ⟨⟨rfl, rfl, hn.outputs⟩, hn.pool⟩
    split
    · unfold connectBlock
      rw [bind_of_ok (get_apply z)]
      have hadd : Quiet env G n (stateOf (onChain (addTransactionFromBlock env bl.minerTx
          (getTransactionHash env bl.minerTx) z.chain.mBlocks.length 0) z)) :=
        keeps_onChain (keeps_addTransactionFromBlock _ _ _ _) z hq
      obtain ⟨txe, s', sa, h, hrec⟩ | ⟨s', h, -⟩ | ⟨e, s', h, -⟩ :=
        addTransactionFromBlock_cases env bl.minerTx (getTransactionHash env bl.minerTx)
          z.chain.mBlocks.length 0 z.chain
      · obtain ⟨⟨ei, hparse⟩, -⟩ := processBlockchainTxExtra_true hrec.extra
        rw [onChain_of_ok h] at hadd
        rw [bind_of_ok (onChain_of_ok h)]
        simp only
        have htake := keeps_takeTransactions hn.txs now bl id 0 bl.txHashes _ hadd
        rw [stateOf_ok] at hadd htake
        cases ht : takeTransactions env now bl id 0 bl.txHashes { z with chain := s' } with
        | error e m =>
          rw [bind_of_error ht]
          rw [ht] at htake
          exact htake
        | ok r m =>
          rw [bind_of_ok ht]
          rw [ht] at htake
          cases r with
          | none => exact .inr htake
          | some taken => exact finishBlock_addedOrQuiet hn now id txe taken hparse htake
      · rw [onChain_of_ok h] at hadd
        rw [bind_of_ok (onChain_of_ok h)]
        exact .inr hadd
      · rw [onChain_of_error h] at hadd
        rw [bind_of_error (onChain_of_error h)]
        exact hadd
    · exact .inr hq

/-- The transactions taken leave a pool with the property. -/
theorem TxsTaken.pool {now k : Nat} {ids : List Hash} {m m' : Node} {taken : List TakenTx}
    (h : TxsTaken env now k ids m taken m') (hp : PoolSound env G m.pool) :
    PoolSound env G m'.pool ∧ ids = taken.map (fun t => getTransactionHash env t.entry.tx) ∧
      ∀ t ∈ taken, PoolEntrySound env G (getTransactionHash env t.entry.tx)
        { TxMemoryPool.details env 0 t.entry.tx t.fee false none with blobSize := t.blobSize } := by
  induction h with
  | nil => exact ⟨hp, rfl, by simp⟩
  | @cons k txId rest m m' txd pool used sa s' entry taken htake hin hr htail ih =>
    obtain ⟨hentry, hpool⟩ := hp.takeTx htake
    obtain ⟨hend, hids, htaken⟩ := ih hpool
    have hpre : entry.tx.toTransactionPrefix = txd.tx.toTransactionPrefix := by
      rw [hr.entry]
      exact prunedTx_toPrefix _ _
    have hid : getTransactionHash env entry.tx = txId := by
      rw [getTransactionHash, hpre]
      exact hentry.id_eq
    refine ⟨hend, by rw [List.map_cons, ← hids, hid], fun t ht => ?_⟩
    rcases List.mem_cons.1 ht with rfl | ht
    · obtain ⟨i, o, hc, hf⟩ := hentry.fee
      exact ⟨rfl, hpre ▸ hentry.good, i, o, hpre ▸ hc, hf⟩
    · exact htaken t ht

theorem TxsTaken.noEmpty {now k : Nat} {ids : List Hash} {m m' : Node} {taken : List TakenTx}
    (h : TxsTaken env now k ids m taken m') (hm : NoEmptyOuts m.chain.mOutputs) :
    NoEmptyOuts m'.chain.mOutputs := by
  induction h with
  | nil => exact hm
  | cons _ _ hr _ ih => exact ih (hr.noEmpty hm)

/-- The node after an added block. -/
theorem Connected.sound {now : Nat} {bl : Block} {n n' : Node}
    (c : Connected env now bl (getBlockHash env bl) n n') (hn : Sound env G n) : Sound env G n' := by
  have hchain := c.chain_eq hn.sync
  have hblocks : n'.chain.mBlocks = c.m.chain.mBlocks ++ [c.entry] := by rw [hchain]; rfl
  have hff := c.forgetFlags_eq
  obtain ⟨hpool, -, htaken⟩ := c.txs.pool (G := G) hn.pool
  constructor
  · rw [hblocks, blockIds, List.map_append, List.map_singleton]
    show n'.chain.mBlocksIndex = blockIds env c.m.chain.mBlocks ++ [getBlockHash env bl]
    rw [blockIds_congr hff, ← hn.index, hchain]
    rfl
  · have h₁ : NoEmptyOuts c.s₁.mOutputs := c.recorded.noEmpty hn.outputs
    have hm : NoEmptyOuts c.m.chain.mOutputs := c.txs.noEmpty h₁
    rw [hchain]
    exact hm
  · intro e he t ht
    rw [hblocks, List.mem_append, List.mem_singleton] at he
    rcases he with he | rfl
    · exact (hn.txs.congr hff) e he t ht
    · rw [c.entry_transactions, List.mem_cons] at ht
      rcases ht with rfl | ht
      · left
        rw [c.coinbase_tx]
        exact c.isCoinbase_minerTx
      · obtain ⟨t', ht', rfl⟩ := List.mem_map.1 ht
        exact .inr (htaken t' ht').good
  · have hp : n'.pool = c.m.pool := by have := congrArg Node.pool c.node; exact this
    rw [hp]
    exact hpool

/-! ## Popping a block -/

/-- The last block is gone. -/
structure Shortened (env : Env) (G : TransactionPrefix → Prop) (n n' : Node) : Prop where
  blocks : ∃ e, forgetFlags n.chain.mBlocks = forgetFlags n'.chain.mBlocks ++ [e]
  nonempty : n'.chain.mBlocks ≠ []
  sound : Sound env G n'

/-- A pop takes the last block, or is quiet. -/
def ShortenedOrQuiet (env : Env) (G : TransactionPrefix → Prop) (n₀ : Node) :
    EStateM.Result Exn Node Bool → Prop
  | .ok true n' => Shortened env G n₀ n'
  | .ok false n' => Quiet env G n₀ n'
  | .error _ n' => Quiet env G n₀ n'

/-- A pop takes the top block off or leaves the chain as it was. -/
theorem popBlock_shortenedOrQuiet (hn : Sound env G n) (now : Nat) :
    ShortenedOrQuiet env G n (popBlockFromBlockchain env now n) := by
  unfold popBlockFromBlockchain
  rw [bind_of_ok (modify_apply _ n), bind_of_ok (get_apply _)]
  have hlog : Quiet env G n { n with popLog := n.popLog ++ [n.chain] } :=
    ⟨⟨rfl, rfl, hn.outputs⟩, hn.pool⟩
  cases hlast : n.chain.mBlocks.getLast? with
  | none => exact hlog
  | some bei =>
    simp only
    split
    · exact hlog
    · next hlen =>
      cases hpad : popBlockScratchpadData env bei.bl n.chain.mScratchpad with
      | error e =>
        have hread : readChain (fun s => popBlockScratchpadData env bei.bl s.mScratchpad)
          { n with popLog := n.popLog ++ [n.chain] } = .error e _ := readChain_of_error hpad
        rw [bind_of_error hread]
        exact hlog
      | ok p =>
        have hread : readChain (fun s => popBlockScratchpadData env bei.bl s.mScratchpad)
          { n with popLog := n.popLog ++ [n.chain] } = .ok p _ := readChain_of_ok hpad
        rw [bind_of_ok hread, bind_of_ok (modify_apply _ _)]
        have hstart : Quiet env G n { n with
            chain := { n.chain with mScratchpad := p.2 }, popLog := n.popLog ++ [n.chain] } :=
          ⟨⟨rfl, rfl, hn.outputs⟩, hn.pool⟩
        have hpurge := keeps_purgeBlockData env hn.txs now bei.bl bei.bl.txHashes.length _ hstart
        cases hp : purgeBlockDataFromBlockchain env now bei.bl bei.bl.txHashes.length { n with
            chain := { n.chain with mScratchpad := p.2 }, popLog := n.popLog ++ [n.chain] } with
        | error e m =>
          rw [hp] at hpurge
          rw [bind_of_error hp]
          exact hpurge
        | ok r m =>
          rw [hp] at hpurge
          rw [bind_of_ok hp]
          have hm : Quiet env G n m := hpurge
          cases r with
          | false => exact hm
          | true =>
            rw [if_neg (by simp), bind_of_ok (get_apply m)]
            split
            · exact hm
            · have hs := hn.of_quiet hm
              have hlen' : m.chain.mBlocks.length = n.chain.mBlocks.length :=
                length_eq_of_forgetFlags hm.chain.blocks
              have hne : m.chain.mBlocks ≠ [] := by
                intro h
                rw [h] at hlen'
                simp only [List.length_nil] at hlen'
                omega
              -- the purge has only moved spent flags, so the last block is the one that was read
              -- before it
              refine ⟨⟨(m.chain.mBlocks.getLast hne).forgetFlags, ?_⟩, ?_, ?_, hs.outputs, ?_, hs.pool⟩
              · rw [← hm.chain.blocks]
                conv_lhs => rw [← List.dropLast_concat_getLast hne]
                rw [forgetFlags_append]
                rfl
              · show m.chain.mBlocks.dropLast ≠ []
                intro h
                have := congrArg List.length h
                rw [List.length_dropLast, List.length_nil] at this
                omega
              · show m.chain.mBlocksIndex.dropLast = blockIds env m.chain.mBlocks.dropLast
                rw [hs.index, blockIds, blockIds, List.map_dropLast]
              · exact fun e he => hs.txs e (List.dropLast_subset _ he)

end

/-! ## Every run -/

/-- `core::handle_incoming_tx` lets no transaction through that is not `G`. -/
def Guaranteed (env : Env) (G : TransactionPrefix → Prop) : Prop :=
  ∀ s tx kept, checkTxSemantic env s tx kept = true → G tx

theorem guaranteed_true (env : Env) : Guaranteed env fun _ => True := fun _ _ _ _ => trivial

/-- What the parser and the checks together let through of a blob is `G`. -/
def AdmittedBlob (env : Env) (G : TransactionPrefix → Prop) (blob : Blob) : Prop :=
  ∀ tx, env.parseTx blob = some tx → ∀ s kept,
    checkTxSemantic env s tx.toTransactionPrefix kept = true → ∀ ei,
    parseAndValidateTxExtra env tx.toTransactionPrefix = .ok (true, ei) → G tx.toTransactionPrefix

/-- They let none through that is not `G`. -/
def Admitted (env : Env) (G : TransactionPrefix → Prop) : Prop := ∀ blob, AdmittedBlob env G blob

theorem Guaranteed.admitted {env : Env} {G : TransactionPrefix → Prop} (h : Guaranteed env G) :
    Admitted env G := by
  intro blob tx _ s kept hsem _ _
  exact h s tx.toTransactionPrefix kept hsem

/-- A property of the blocks that pushes and pops keep. -/
structure BlocksInvariant (env : Env) (G : TransactionPrefix → Prop) (A : List BlockEntry → Prop) :
    Prop where
  flags : ∀ bs bs', forgetFlags bs' = forgetFlags bs → A bs → A bs'
  push : ∀ {now : Nat} {bl : Block} {n n' : Node}
    (c : Connected env now bl (getBlockHash env bl) n n'), Sound env G n →
    (n.chain.mBlocks = [] ∨ A n.chain.mBlocks) → A (c.m.chain.mBlocks ++ [c.entry])
  pop : ∀ bs e, bs ≠ [] → A (bs ++ [e]) → A bs

namespace BlocksInvariant

variable {env : Env} {G : TransactionPrefix → Prop} {A : List BlockEntry → Prop}

theorem of_quiet (h : BlocksInvariant env G A) {n n' : Node} (hn : Sound env G n ∧ A n.chain.mBlocks)
    (hq : Quiet env G n n') : Sound env G n' ∧ A n'.chain.mBlocks :=
  ⟨hn.1.of_quiet hq, h.flags _ _ hq.chain.blocks hn.2⟩

/-- A step that adds a block. -/
theorem of_connected (h : BlocksInvariant env G A) {now : Nat} {bl : Block} {n n' : Node}
    (c : Connected env now bl (getBlockHash env bl) n n') (hn : Sound env G n)
    (ha : n.chain.mBlocks = [] ∨ A n.chain.mBlocks) : Sound env G n' ∧ A n'.chain.mBlocks := by
  refine ⟨c.sound hn, ?_⟩
  have hblocks : n'.chain.mBlocks = c.m.chain.mBlocks ++ [c.entry] := by
    rw [c.chain_eq hn.sync]; rfl
  rw [hblocks]
  exact h.push c hn ha

/-- A step that takes the top block off. -/
theorem of_shortened (h : BlocksInvariant env G A) {n n' : Node} (ha : A n.chain.mBlocks)
    (hs : Shortened env G n n') : Sound env G n' ∧ A n'.chain.mBlocks := by
  refine ⟨hs.sound, ?_⟩
  obtain ⟨e, he⟩ := hs.blocks
  have hlen : n.chain.mBlocks.length = n'.chain.mBlocks.length + 1 := by
    rw [← length_forgetFlags, he, List.length_append, List.length_singleton, length_forgetFlags]
  have hpos := List.length_pos_iff.2 hs.nonempty
  have hne : n.chain.mBlocks ≠ [] := by
    intro h0
    rw [h0, List.length_nil] at hlen
    omega
  have hsplit := List.dropLast_concat_getLast hne
  rw [← hsplit] at ha
  have hdrop : n.chain.mBlocks.dropLast ≠ [] := by
    intro h0
    have := congrArg List.length h0
    rw [List.length_dropLast, List.length_nil] at this
    omega
  refine h.flags _ _ ?_ (h.pop _ _ hdrop ha)
  have := congrArg List.dropLast he
  rw [List.dropLast_concat, forgetFlags, ← List.map_dropLast] at this
  exact this.symm

/-- The three ways the main chain is written. -/
theorem chainInvariant (h : BlocksInvariant env G A) :
    ChainInvariant env fun n => Sound env G n ∧ A n.chain.mBlocks := by
  refine ⟨fun now bl n hn => ?_, fun now n hn => ?_, fun n _ _ _ hn => ?_⟩
  · have ho := handleBlockToMainChain_addedOrQuiet hn.1 now bl (getBlockHash env bl)
    cases hr : handleBlockToMainChain env now bl (getBlockHash env bl) n with
    | ok v n' =>
      rw [hr] at ho
      rcases ho with rfl | hq
      · obtain ⟨c⟩ := handleBlockToMainChain_added hr
        exact h.of_connected c hn.1 (.inr hn.2)
      · exact h.of_quiet hn hq
    | error e n' =>
      rw [hr] at ho
      exact fun _ => h.of_quiet hn ho
  · have ho := popBlock_shortenedOrQuiet hn.1 now
    cases hr : popBlockFromBlockchain env now n with
    | ok r n' =>
      rw [hr] at ho
      cases r with
      | true => exact h.of_shortened hn.2 ho
      | false => exact h.of_quiet hn ho
    | error e n' =>
      rw [hr] at ho
      exact fun _ => h.of_quiet hn ho
  · exact ⟨⟨hn.1.index, hn.1.outputs, hn.1.txs, hn.1.pool⟩, hn.2⟩

end BlocksInvariant

/-- A new block on an empty chain can only be added as its first block. -/
theorem addNewBlock_initial {env : Env} {checkpoints : Checkpoints} {now depth : Nat} {bl : Block}
    {n : Node} (h : addNewBlock env now depth bl (Node.initial checkpoints) = .ok .added n) :
    handleBlockToMainChain env now bl (getBlockHash env bl) (Node.initial checkpoints) =
      .ok .added n := by
  have alternative : ∀ switch, alternativeBlock env switch bl (getBlockHash env bl)
      (Node.initial checkpoints) ≠ .ok .added n := by
    intro switch ha
    unfold alternativeBlock at ha
    rw [bind_of_ok (get_apply _)] at ha
    split at ha
    · cases ha
    · -- no previous block is known, so the block is an orphan
      cases ha
  unfold addNewBlock at h
  rw [bind_of_ok (get_apply _)] at h
  split at h
  · cases h
  · split at h
    · cases depth with
      | zero => exact absurd h (alternative _)
      | succ depth => exact absurd h (alternative _)
    · exact h

/-- The node before `init` has no blocks. -/
theorem Sound.initial (env : Env) (G : TransactionPrefix → Prop) (checkpoints : Checkpoints) :
    Sound env G (Node.initial checkpoints) := by
  refine ⟨rfl, fun a => ?_, fun e he => absurd he List.not_mem_nil, fun id txd h => ?_⟩
  · show (∅ : Map UInt64 AmountOuts)[a]? ≠ some []
    simp
  · have : (∅ : Map Hash TxDetails)[id]? = some txd := h
    simp at this

/-- An incoming transaction can only change the pool. -/
theorem handleIncomingTx_poolOnly {env : Env} {G : TransactionPrefix → Prop} {blob : Blob}
    (hG : AdmittedBlob env G blob) (now : Nat) (kept : Bool) {n : Node}
    (hn : PoolSound env G n.pool) :
    ∃ pool, stateOf (handleIncomingTx env now blob kept n) = { n with pool } ∧
      PoolSound env G pool := by
  unfold handleIncomingTx
  rw [bind_of_ok (get_apply n)]
  split
  · exact ⟨n.pool, rfl, hn⟩
  · cases hparse : env.parseTx blob with
    | none => exact ⟨n.pool, rfl, hn⟩
    | some tx =>
      simp only
      split
      · exact ⟨n.pool, rfl, hn⟩
      · next hsem =>
        cases hextra : parseAndValidateTxExtra env tx.toTransactionPrefix with
        | error e => exact ⟨n.pool, rfl, hn⟩
        | ok r =>
          obtain ⟨ok, ei⟩ := r
          cases ok with
          | false => exact ⟨n.pool, rfl, hn⟩
          | true =>
            have hgood : G tx.toTransactionPrefix := hG tx hparse _ _ (by simpa using hsem) ei hextra
            show ∃ pool, stateOf (addNewTx env now tx kept ei.mAlias.mAlias n) = _ ∧ _
            unfold addNewTx
            simp only
            split
            · exact ⟨n.pool, rfl, hn⟩
            · split
              · next v pool ha => exact ⟨pool, rfl, hn.addTx hgood ha⟩
              · exact ⟨n.pool, rfl, hn⟩

/-- A property of the blocks that pushes and pops keep holds in every run. -/
theorem BlocksInvariant.of_reachable {env : Env} {G : TransactionPrefix → Prop}
    {A : List BlockEntry → Prop} (h : BlocksInvariant env G A) (hG : Admitted env G) {n : Node}
    (hn : Reachable env n) : Sound env G n ∧ A n.chain.mBlocks := by
  refine h.chainInvariant.of_reachable ?_ ?_ hn
  · intro checkpoints now depth bl n hg
    obtain ⟨c⟩ := handleBlockToMainChain_added (addNewBlock_initial hg)
    exact h.of_connected c (Sound.initial env G checkpoints) (.inl rfl)
  · intro now blob kept
    refine Keeps.upTo fun n hn => ?_
    obtain ⟨pool, hstate, hpool⟩ := handleIncomingTx_poolOnly (hG blob) now kept hn.1.pool
    rw [hstate]
    exact ⟨⟨hn.1.index, hn.1.outputs, hn.1.txs, hpool⟩, hn.2⟩

/-- Every reachable node is sound, for what its pool admits. -/
theorem Reachable.sound_of_admitted {env : Env} {G : TransactionPrefix → Prop}
    (hG : Admitted env G) {n : Node} (hn : Reachable env n) :
    Sound env G n ∧ n.chain.mBlocks ≠ [] := by
  refine BlocksInvariant.of_reachable (A := fun bs => bs ≠ []) ⟨?_, ?_, ?_⟩ hG hn
  · intro bs bs' hb hne h0
    have := length_eq_of_forgetFlags hb
    rw [h0, List.length_nil] at this
    exact hne (List.length_eq_zero_iff.1 this.symm)
  · intro _ _ _ _ c _ _
    simp
  · intro bs e hne _
    exact hne

theorem Reachable.sound {env : Env} {G : TransactionPrefix → Prop} (hG : Guaranteed env G)
    {n : Node} (hn : Reachable env n) : Sound env G n ∧ n.chain.mBlocks ≠ [] :=
  hn.sound_of_admitted hG.admitted

end DarknetSpace
