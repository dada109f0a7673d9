import DarknetSpace.Chain.Unpushed

/-!
# What pushes and pops leave beside the main chain

A pop writes the chain, its indexes and the pool, and nothing else. A push, in
addition, sets the checkpoint-zone flag (to what the height of the block makes
it) and the size limit. Neither touches the alternative chains or the
checkpoints, whichever way it ends, as long as the block index is in step with
the blocks: `fix_blocks_index` clears the alternative chains otherwise.

`SameBeside` lists what stays, and both calls are followed through all their exits, the
exceptions among them, since a switch goes on behind a push that was refused. So
whatever a switch does, its store of alternative chains changes only where the switch
itself writes it.
-/

namespace DarknetSpace

open StateExn

theorem Storage.side_of_frame {s s' : Storage} (h : s'.frame = s.frame) : s'.side = s.side := by
  have := congrArg Storage.side h
  exact this

section

variable {env : Env} {w : Storage}

/-- A computation on the chain alone that keeps the frame keeps it as a computation on the node. -/
theorem keeps_frame_onChain {α : Type} {x : StorageM α} (h : ∀ s, (stateOf (x s)).frame = s.frame) :
    Keeps (fun m : Node => m.chain.frame = w) (onChain x) := by
  intro m hm
  have hx := h m.chain
  cases hr : x m.chain with
  | ok a s =>
    rw [hr] at hx
    rw [onChain_of_ok hr]
    exact hx.trans hm
  | error e s =>
    rw [hr] at hx
    rw [onChain_of_error hr]
    exact hx.trans hm

/-- Returning a transaction to the pool does not write the chain. -/
theorem keeps_chain_returnToPool {P : Storage → Prop} (now : Nat) (tx : Transaction) :
    Keeps (fun m : Node => P m.chain) (returnToPool env now tx) := by
  intro m hm
  rcases returnToPool_chain env now tx m with ⟨pool, h⟩ | ⟨e, h⟩
  · rw [h]
    exact hm
  · rw [h]
    exact hm

/-! ## Pops -/

/-- Taking one transaction out of the indexes leaves the frame. -/
theorem keeps_frame_purgeTransaction (now : Nat) (txId : Hash) :
    Keeps (fun m : Node => m.chain.frame = w) (purgeTransactionFromBlockchain env now txId) := by
  refine Keeps.bind Keeps.get fun n => ?_
  cases n.chain.mTransactions[txId]? with
  | none => exact Keeps.pure false
  | some idx =>
    refine Keeps.bind (Keeps.reads _) fun txe => ?_
    refine Keeps.bind (keeps_frame_onChain fun s => ?_) fun _ => ?_
    · exact Storage.frame_of_withoutSpends
        (purgeTransactionInputs_withoutSpends env true s.withoutSpends txe.tx.vin s rfl)
    refine Keeps.bind (keeps_frame_onChain fun s => ?_) fun r => Keeps.ite ?_ (Keeps.pure false)
    · exact Storage.frame_of_withoutAliases
        (unprocessBlockchainTxExtra_withoutAliases env txe.tx s)
    refine Keeps.bind ?_ fun _ => Keeps.bind (keeps_frame_onChain fun s => ?_) fun res =>
      Keeps.bind (Keeps.modify fun m hm => hm) fun _ => Keeps.pure res
    · unfold returnOrdinaryToPool
      exact Keeps.ite (Keeps.pure _)
        (keeps_chain_returnToPool (P := fun s => s.frame = w) now txe.tx)
    · exact Storage.frame_of_withoutOutputs
        (popOutputs_withoutOutputs env txId s.withoutOutputs txe.tx.vout.zipIdx.reverse s rfl)

/-- Taking the transactions of a block out, last one first, leaves the frame: by induction on how
many are left. -/
theorem keeps_frame_purgeBlockData (now : Nat) (bl : Block) (k : Nat) :
    Keeps (fun m : Node => m.chain.frame = w) (purgeBlockDataFromBlockchain env now bl k) := by
  have all : ∀ ids, Keeps (fun m : Node => m.chain.frame = w) (purgeTransactions env now ids) := by
    intro ids
    induction ids with
    | nil => exact Keeps.pure true
    | cons id rest ih =>
      exact Keeps.bind (keeps_frame_purgeTransaction now id) fun r =>
        Keeps.bind ih fun rs => Keeps.pure _
  exact Keeps.ite (Keeps.pure false) (all _)

/-- A pop leaves the side chains and the settings alone. -/
theorem keeps_side_popBlock (env : Env) (now : Nat) (w : Storage) :
    Keeps (fun m : Node => m.chain.side = w) (popBlockFromBlockchain env now) := by
  refine Keeps.bind (Keeps.modify fun m hm => hm) fun _ => Keeps.bind Keeps.get fun n => ?_
  cases n.chain.mBlocks.getLast? with
  | none => exact Keeps.pure false
  | some bei =>
    refine Keeps.ite (Keeps.pure false) (Keeps.bind (Keeps.reads _) fun p => ?_)
    refine Keeps.bind (Keeps.modify fun m hm => hm) fun _ => ?_
    refine Keeps.bind (fun m hm => ?_) fun r => Keeps.ite (Keeps.pure false) ?_
    · exact (Storage.side_of_frame
        (keeps_frame_purgeBlockData now bei.bl _ m rfl)).trans hm
    refine Keeps.bind Keeps.get fun m => Keeps.ite (Keeps.pure false) ?_
    exact Keeps.bind (Keeps.modify fun m hm => hm) fun _ => Keeps.pure true

end

/-! ## Pushes -/

/-- What the transactions of a block leave alone while it is connected. -/
def Storage.beside (s : Storage) : Storage := { s.frame with mInvalidBlocks := ∅ }

theorem Storage.beside_of_frame {s s' : Storage} (h : s'.frame = s.frame) : s'.beside = s.beside :=
  congrArg (fun t : Storage => { t with mInvalidBlocks := ∅ }) h

section

variable {env : Env} {w : Storage}

theorem keeps_beside_of_frame {α : Type} {x : NodeM α}
    (h : ∀ w, Keeps (fun m : Node => m.chain.frame = w) x) :
    Keeps (fun m : Node => m.chain.beside = w) x := by
  intro m hm
  exact (Storage.beside_of_frame (h m.chain.frame m rfl)).trans hm

theorem keeps_beside_addTransaction (tx : Transaction) (txId : Hash) (h : Nat) (i : UInt16) :
    Keeps (fun m : Node => m.chain.beside = w) (onChain (addTransactionFromBlock env tx txId h i)) :=
  keeps_beside_of_frame fun _ => keeps_frame_onChain fun s =>
    addTransactionFromBlock_frame env tx txId h i s.frame s rfl

/-- Taking the transactions of a block from the pool, by induction on the ids; a refusal in the
middle undoes the ones before it, which writes nothing beside the chain either. -/
theorem keeps_beside_takeTransactions (now : Nat) (bl : Block) (id : Hash) (k : Nat)
    (ids : List Hash) :
    Keeps (fun m : Node => m.chain.beside = w) (takeTransactions env now bl id k ids) := by
  have purge : ∀ k, Keeps (fun m : Node => m.chain.beside = w)
      (purgeBlockDataFromBlockchain env now bl k) :=
    fun k => keeps_beside_of_frame fun _ => keeps_frame_purgeBlockData now bl k
  have giveBack : ∀ tx, Keeps (fun m : Node => m.chain.beside = w) (returnToPool env now tx) :=
    fun tx => keeps_chain_returnToPool (P := fun s => s.beside = w) now tx
  induction ids generalizing k with
  | nil => exact Keeps.pure _
  | cons txId rest ih =>
    intro m hm
    unfold takeTransactions
    rw [bind_of_ok (get_apply m)]
    cases m.pool.takeTx env txId with
    | none => exact Keeps.bind (purge k) (fun _ => Keeps.pure none) m hm
    | some r =>
      obtain ⟨txd, pool⟩ := r
      simp only
      rw [bind_of_ok (set_apply _ _)]
      refine Keeps.bind (P := fun m : Node => m.chain.beside = w) (Keeps.reads _) (fun used => ?_)
        { m with pool } hm
      cases used with
      | none =>
        exact Keeps.bind (giveBack _) fun _ => Keeps.bind (purge k) fun _ =>
          Keeps.bind (fun m hm => hm) fun _ => Keeps.pure none
      | some used =>
        refine Keeps.bind (keeps_beside_addTransaction _ _ _ _) fun entry => ?_
        cases entry with
        | none =>
          exact Keeps.bind (giveBack _) fun _ => Keeps.bind (purge k) fun _ => Keeps.pure none
        | some entry =>
          refine Keeps.bind (ih (k + 1)) fun taken => ?_
          cases taken with
          | none => exact Keeps.pure none
          | some taken => exact Keeps.pure _

/-- The side chains and settings a push can only pass on. -/
structure SameBeside (s s' : Storage) : Prop where
  alts : s'.mAlternativeChains = s.mAlternativeChains
  checkpoints : s'.mCheckpoints = s.mCheckpoints
  zone : s'.mIsInCheckpointZone = s.mIsInCheckpointZone

/-- What leaves all that stands beside the chain leaves the two parts `SameBeside` speaks of. -/
theorem SameBeside.of_beside {s s' : Storage} (h : s'.beside = s.beside) : SameBeside s s' := by
  have ha := congrArg Storage.mAlternativeChains h
  have hc := congrArg Storage.mCheckpoints h
  have hz := congrArg Storage.mIsInCheckpointZone h
  exact ⟨ha, hc, hz⟩

theorem SameBeside.trans {s s' s'' : Storage} (h₁ : SameBeside s s') (h₂ : SameBeside s' s'') :
    SameBeside s s'' :=
  ⟨h₂.alts.trans h₁.alts, h₂.checkpoints.trans h₁.checkpoints, h₂.zone.trans h₁.zone⟩

/-- Appending the block writes the chain and the block index. With the index in step
`fix_blocks_index` has nothing to do, and the alternative chains stay. -/
theorem appendBlock_sameBeside (id : Hash) (bei : BlockEntry) {s : Storage}
    (hsync : s.mBlocksIndex.length = s.mBlocks.length) :
    SameBeside s (stateOf (appendBlock env id bei s)) := by
  unfold appendBlock
  rw [bind_of_ok (modify_apply _ s)]
  cases hpad : pushBlockScratchpadData env bei.bl s.mScratchpad with
  | error e =>
    rw [bind_of_error (appendScratchpad_of_error
      (s := { s with mBlocksIndex := s.mBlocksIndex ++ [id] }) hpad)]
    exact ⟨rfl, rfl, rfl⟩
  | ok pad =>
    rw [bind_of_ok (appendScratchpad_of_ok
      (s := { s with mBlocksIndex := s.mBlocksIndex ++ [id] }) hpad), bind_of_ok (modify_apply _ _),
      bind_of_ok (fixBlocksIndex_of_length_eq (by simp [hsync]))]
    exact ⟨rfl, rfl, rfl⟩

/-- The end of a push: the aliases, the block and the size limit. -/
theorem finishBlock_sameBeside (now : Nat) (bl : Block) (id : Hash) (coinbase : TransactionEntry)
    (taken : List TakenTx) {n : Node}
    (hsync : n.chain.mBlocksIndex.length = n.chain.mBlocks.length) :
    SameBeside n.chain (stateOf (finishBlock env now bl id coinbase taken n)).chain := by
  have purge : SameBeside n.chain (stateOf ((do
      let _ ← purgeBlockDataFromBlockchain env now bl taken.length
      pure .failed : NodeM BlockVerdict) n)).chain := by
    refine .of_beside (Keeps.bind (P := fun m : Node => m.chain.beside = n.chain.beside) ?_
      (fun _ => Keeps.pure _) n rfl)
    exact keeps_beside_of_frame fun _ => keeps_frame_purgeBlockData now bl taken.length
  unfold finishBlock
  cases hval : validateMinerTransaction env n.chain.mBlocks bl (cumulativeBlockSize env bl taken)
      (feeSummary taken) (alreadyGeneratedCoins n.chain.mBlocks) with
  | error e =>
    rw [bind_of_error (readChain_of_error hval)]
    exact ⟨rfl, rfl, rfl⟩
  | ok v =>
    rw [bind_of_ok (readChain_of_ok hval)]
    cases v with
    | none => exact purge
    | some v =>
      simp only
      rw [bind_of_ok (get_apply n)]
      split
      · exact purge
      · have ha := @appendBlock_sameBeside env id
          (newBlockEntry env n.chain bl coinbase taken v.1 v.2) n.chain hsync
        cases hr : appendBlock env id (newBlockEntry env n.chain bl coinbase taken v.1 v.2)
            n.chain with
        | ok a s =>
          rw [hr] at ha
          rw [bind_of_ok (onChain_of_ok hr)]
          exact ha
        | error e s =>
          rw [hr] at ha
          rw [bind_of_error (onChain_of_error hr)]
          exact ha

/-- Whether the block index is in step with the blocks can be read off what a refused push leaves.
-/
theorem Storage.sync_of_beside {s s' : Storage} (h : s'.beside = s.beside)
    (hsync : s.mBlocksIndex.length = s.mBlocks.length) :
    s'.mBlocksIndex.length = s'.mBlocks.length := by
  have hb : forgetFlags s'.mBlocks = forgetFlags s.mBlocks := by
    have := congrArg Storage.mBlocks h
    exact this
  have hi : s'.mBlocksIndex = s.mBlocksIndex := by
    have := congrArg Storage.mBlocksIndex h
    exact this
  rw [hi, hsync, length_eq_of_forgetFlags hb]

/-- A push, accepted or refused, leaves the alternative chains and the checkpoints. -/
theorem connectBlock_sameBeside (now : Nat) (bl : Block) (id : Hash) {n : Node}
    (hsync : n.chain.mBlocksIndex.length = n.chain.mBlocks.length) :
    SameBeside n.chain (stateOf (connectBlock env now bl id n)).chain := by
  unfold connectBlock
  rw [bind_of_ok (get_apply n)]
  have hadd := @keeps_beside_addTransaction env n.chain.beside bl.minerTx
    (getTransactionHash env bl.minerTx) n.chain.mBlocks.length 0 n rfl
  cases hr : onChain (addTransactionFromBlock env bl.minerTx (getTransactionHash env bl.minerTx)
      n.chain.mBlocks.length 0) n with
  | error e m =>
    rw [hr] at hadd
    rw [bind_of_error hr]
    exact .of_beside hadd
  | ok entry m =>
    rw [hr, stateOf_ok] at hadd
    rw [bind_of_ok hr]
    cases entry with
    | none => exact .of_beside hadd
    | some coinbase =>
      have htake := @keeps_beside_takeTransactions env n.chain.beside now bl id 0
        bl.txHashes m hadd
      simp only
      cases ht : takeTransactions env now bl id 0 bl.txHashes m with
      | error e m' =>
        rw [ht] at htake
        rw [bind_of_error ht]
        exact .of_beside htake
      | ok taken m' =>
        rw [ht, stateOf_ok] at htake
        rw [bind_of_ok ht]
        cases taken with
        | none => exact .of_beside htake
        | some taken =>
          exact (SameBeside.of_beside htake).trans (finishBlock_sameBeside now bl id coinbase taken
            (Storage.sync_of_beside htake hsync))

/-- A push leaves everything as it was beside the main chain, or sets the
checkpoint-zone flag for the height of its block. -/
theorem handleBlockToMainChain_sameBeside (env : Env) (now : Nat) (bl : Block) (id : Hash) {n : Node}
    (hsync : n.chain.mBlocksIndex.length = n.chain.mBlocks.length) :
    SameBeside n.chain (stateOf (handleBlockToMainChain env now bl id n)).chain ∨
      SameBeside (n.chain.setCheckpointZone n.chain.mBlocks.length)
        (stateOf (handleBlockToMainChain env now bl id n)).chain := by
  unfold handleBlockToMainChain
  rw [bind_of_ok (get_apply n)]
  cases checkBlockHeader env now n.chain bl with
  | some v => exact .inl ⟨rfl, rfl, rfl⟩
  | none =>
    right
    simp only
    rw [bind_of_ok (onChain_modify _ n), bind_of_ok (get_apply _)]
    split
    · exact connectBlock_sameBeside
        (n := { n with chain := n.chain.setCheckpointZone n.chain.mBlocks.length }) now bl id hsync
    · exact ⟨rfl, rfl, rfl⟩

end

end DarknetSpace
