import DarknetSpace.Chain.Ledger
import DarknetSpace.Chain.Rebuild

/-!
# What recording a transaction leaves alone

Each writer of `Ledger.lean` touches a few containers. Stated once here, for
every way out of it: with those containers blanked out, the storage it ends in
is the storage it started from. Spent flags live inside `m_blocks`, so "the
same blocks" is said up to flags (`BlockEntry.forgetFlags`).

`without…` blanks a container out, and `frame` all those that a kind of writer touches.
The lemmas come in the order of the writers: aliases, key images with their flags,
outputs, one transaction, and last a rebuild over a whole chain. They are used as
rewriting rules: behind a sequence of writers, a container that none of them touches is
the one before all of them.
-/

namespace DarknetSpace

open StateExn

/-! ## Blocks up to spent flags -/

/-- A transaction entry with all its outputs unspent. -/
def TransactionEntry.forgetFlags (t : TransactionEntry) : TransactionEntry :=
  { t with mSpentFlags := List.replicate t.mSpentFlags.length false }

/-- A block entry with all its outputs unspent. -/
def BlockEntry.forgetFlags (e : BlockEntry) : BlockEntry :=
  { e with transactions := e.transactions.map TransactionEntry.forgetFlags }

/-- The chain up to spent flags. -/
def forgetFlags (blocks : List BlockEntry) : List BlockEntry := blocks.map BlockEntry.forgetFlags

@[simp] theorem forgetFlags_append (bs bs' : List BlockEntry) :
    forgetFlags (bs ++ bs') = forgetFlags bs ++ forgetFlags bs' := by
  simp [forgetFlags]

@[simp] theorem length_forgetFlags (bs : List BlockEntry) :
    (forgetFlags bs).length = bs.length := by
  simp [forgetFlags]

theorem length_eq_of_forgetFlags {bs bs' : List BlockEntry}
    (h : forgetFlags bs = forgetFlags bs') : bs.length = bs'.length := by
  rw [← length_forgetFlags bs, h, length_forgetFlags]

/-- Setting one flag is forgotten with the flags. -/
theorem BlockEntry.forgetFlags_modify (e : BlockEntry) (i out : Nat) (spent : Bool) :
    BlockEntry.forgetFlags { e with transactions := e.transactions.modify i fun t =>
      { t with mSpentFlags := t.mSpentFlags.set out spent } } = e.forgetFlags := by
  simp only [BlockEntry.forgetFlags, BlockEntry.mk.injEq, true_and]
  apply List.ext_getElem?
  intro j
  simp only [List.getElem?_map, List.getElem?_modify]
  split
  · cases e.transactions[j]? with
    | none => rfl
    | some t => simp [TransactionEntry.forgetFlags]
  · simp

/-- `set_spent_flag` changes a flag only. -/
theorem forgetFlags_setSpentFlag (bs : List BlockEntry) (idx : TransactionIndex) (out : Nat)
    (spent : Bool) : forgetFlags (setSpentFlag bs idx out spent) = forgetFlags bs := by
  unfold forgetFlags setSpentFlag
  apply List.ext_getElem?
  intro i
  rw [List.getElem?_map, List.getElem?_map, List.getElem?_modify]
  split
  · cases bs[i]? with
    | none => rfl
    | some e => exact congrArg some (BlockEntry.forgetFlags_modify e _ out spent)
  · simp

/-! ## Storages with some containers blanked out -/

namespace Storage

/-- Everything but key images and spent flags. -/
def withoutSpends (s : Storage) : Storage :=
  { s with mBlocks := DarknetSpace.forgetFlags s.mBlocks, mSpentKeys := ∅ }

/-- Everything but aliases. -/
def withoutAliases (s : Storage) : Storage := { s with mAliases := ∅, mAddrToAlias := ∅ }

/-- Everything but the per-amount output index. -/
def withoutOutputs (s : Storage) : Storage := { s with mOutputs := ∅ }

/-- Everything the recording of a transaction leaves alone: the blocks up to
flags, the block index, the scratchpad, the side chains, the settings. -/
def frame (s : Storage) : Storage :=
  { s with
    mBlocks := DarknetSpace.forgetFlags s.mBlocks
    mSpentKeys := ∅
    mAliases := ∅
    mAddrToAlias := ∅
    mOutputs := ∅
    mTransactions := ∅ }

/-- What is not the main chain or an index of it: the side chains and the
settings. -/
def side (s : Storage) : Storage :=
  { s with
    mBlocks := []
    mBlocksIndex := []
    mTransactions := ∅
    mSpentKeys := ∅
    mOutputs := ∅
    mAliases := ∅
    mAddrToAlias := ∅
    mScratchpad := [] }

theorem frame_of_withoutSpends {s s' : Storage} (h : s'.withoutSpends = s.withoutSpends) :
    s'.frame = s.frame :=
  congrArg (fun t : Storage => { t with
    mAliases := ∅, mAddrToAlias := ∅, mOutputs := ∅, mTransactions := ∅ }) h

theorem frame_of_withoutAliases {s s' : Storage} (h : s'.withoutAliases = s.withoutAliases) :
    s'.frame = s.frame :=
  congrArg (fun t : Storage => { t with
    mBlocks := DarknetSpace.forgetFlags t.mBlocks, mSpentKeys := ∅, mOutputs := ∅
    mTransactions := ∅ }) h

theorem frame_of_withoutOutputs {s s' : Storage} (h : s'.withoutOutputs = s.withoutOutputs) :
    s'.frame = s.frame :=
  congrArg (fun t : Storage => { t with
    mBlocks := DarknetSpace.forgetFlags t.mBlocks, mSpentKeys := ∅, mAliases := ∅
    mAddrToAlias := ∅, mTransactions := ∅ }) h

theorem length_of_frame {s s' : Storage} (h : s'.frame = s.frame) :
    s'.mBlocks.length = s.mBlocks.length :=
  length_eq_of_forgetFlags (congrArg Storage.mBlocks h)

end Storage

/-! ## Aliases -/

/-- `put_alias_info` writes the two alias tables. -/
theorem putAliasInfo_withoutAliases (env : Env) (ai : AliasInfo) (s : Storage) :
    (putAliasInfo env ai s).2.withoutAliases = s.withoutAliases := by
  unfold putAliasInfo
  split
  · rfl
  · simp only
    split <;> split
    · rfl
    · rfl
    · rfl
    · split <;> rfl

/-- `pop_alias_info` writes the two alias tables. -/
theorem popAliasInfo_withoutAliases (ai : AliasInfo) (s : Storage) :
    (popAliasInfo ai s).2.withoutAliases = s.withoutAliases := by
  unfold popAliasInfo
  split
  · rfl
  · simp only
    split <;> rfl

/-- `process_blockchain_tx_extra` writes what `put_alias_info` writes, if it writes at all. -/
theorem processBlockchainTxExtra_withoutAliases (env : Env) (tx : Transaction) (s : Storage) :
    (stateOf (processBlockchainTxExtra env tx s)).withoutAliases = s.withoutAliases := by
  unfold processBlockchainTxExtra
  split
  · rfl
  · rfl
  · split
    · rfl
    · exact putAliasInfo_withoutAliases env _ s

/-- `unprocess_blockchain_tx_extra` writes what `pop_alias_info` writes, if it writes at all. -/
theorem unprocessBlockchainTxExtra_withoutAliases (env : Env) (tx : Transaction) (s : Storage) :
    (stateOf (unprocessBlockchainTxExtra env tx s)).withoutAliases = s.withoutAliases := by
  unfold unprocessBlockchainTxExtra
  split
  · split
    · rfl
    · rfl
    · split
      · rfl
      · exact popAliasInfo_withoutAliases _ s
  · rfl

/-! ## Key images and flags -/

/-- A flag update either writes exactly its flag, or writes nothing. -/
theorem updateSpentTxFlagsForInput_cases (env : Env) (amount g : UInt64) (spent : Bool)
    (s : Storage) :
    (∃ idx out, (s.mOutputs.getD amount [])[g.toNat]? = some (idx, out) ∧
      updateSpentTxFlagsForInput env amount g spent s =
        .ok true { s with mBlocks := setSpentFlag s.mBlocks idx out.toNat spent }) ∨
    updateSpentTxFlagsForInput env amount g spent s = .ok false s ∨
    ∃ e, updateSpentTxFlagsForInput env amount g spent s = .error e s := by
  unfold updateSpentTxFlagsForInput
  split
  · exact .inr (.inl rfl)
  · next idx out hout =>
    split
    · exact .inr (.inr ⟨_, rfl⟩)
    · split
      · split
        · exact .inl ⟨idx, out, hout, rfl⟩
        · exact .inr (.inl rfl)
      · exact .inr (.inl rfl)

/-- The flag of a directly spent output, and nothing else. -/
theorem updateSpentTxFlagsForInput_withoutSpends (env : Env) (amount g : UInt64) (spent : Bool)
    (s : Storage) :
    (stateOf (updateSpentTxFlagsForInput env amount g spent s)).withoutSpends
      = s.withoutSpends := by
  obtain ⟨idx, out, _, h⟩ | h | ⟨e, h⟩ := updateSpentTxFlagsForInput_cases env amount g spent s
  · rw [h, stateOf_ok]
    unfold Storage.withoutSpends
    rw [forgetFlags_setSpentFlag]
  · rw [h, stateOf_ok]
  · rw [h, stateOf_error]

/-- Only an input with a single offset touches a flag. -/
theorem updateFlagsOfDirectSpend_withoutSpends (env : Env) (amount : UInt64) (offs : List UInt64)
    (spent : Bool) (s : Storage) :
    (stateOf (updateFlagsOfDirectSpend env amount offs spent s)).withoutSpends
      = s.withoutSpends := by
  unfold updateFlagsOfDirectSpend
  split
  · exact updateSpentTxFlagsForInput_withoutSpends env amount _ spent s
  · rfl

/-- Adding an input records its key image and may set a flag. -/
theorem addTransactionInput_withoutSpends (env : Env) (i : Txin) (s : Storage) :
    (stateOf (addTransactionInput env i s)).withoutSpends = s.withoutSpends := by
  cases i with
  | toKey amount offs ki =>
    simp only [addTransactionInput]
    split
    · rfl
    · rw [updateFlagsOfDirectSpend_withoutSpends]
      rfl
  | gen => rfl
  | toScript => rfl
  | toScripthash => rfl

/-- Purging an input takes its key image out and may clear a flag. -/
theorem purgeTransactionInput_withoutSpends (env : Env) (strict : Bool) (i : Txin) (s : Storage) :
    (stateOf (purgeTransactionInput env strict i s)).withoutSpends = s.withoutSpends := by
  cases i with
  | toKey amount offs ki =>
    simp only [purgeTransactionInput]
    split
    · rfl
    · rw [updateFlagsOfDirectSpend_withoutSpends]
      rfl
  | gen => rfl
  | toScript => rfl
  | toScripthash => rfl

/-- All inputs of a transaction, by induction on them; the throw in the middle included. -/
theorem addTransactionInputs_withoutSpends (env : Env) (t : Storage) (vin : List Txin) :
    Keeps (fun s => s.withoutSpends = t) (addTransactionInputs env vin) := by
  induction vin with
  | nil => exact Keeps.pure true
  | cons i rest ih =>
    refine Keeps.bind (fun s hs => ?_) (fun r => Keeps.ite ih (Keeps.pure false))
    rw [addTransactionInput_withoutSpends]
    exact hs

/-- The same for the way back. -/
theorem purgeTransactionInputs_withoutSpends (env : Env) (strict : Bool) (t : Storage)
    (vin : List Txin) :
    Keeps (fun s => s.withoutSpends = t) (purgeTransactionInputs env strict vin) := by
  induction vin with
  | nil => exact Keeps.pure true
  | cons i rest ih =>
    refine Keeps.bind (fun s hs => ?_) (fun r => Keeps.ite (Keeps.pure false) ih)
    rw [purgeTransactionInput_withoutSpends]
    exact hs

/-! ## Outputs -/

/-- Popping outputs from the global index writes that index only. -/
theorem popOutputs_withoutOutputs (env : Env) (txId : Hash) (t : Storage)
    (outs : List (TxOut × Nat)) :
    Keeps (fun s => s.withoutOutputs = t) (popOutputs env txId outs) := by
  induction outs with
  | nil => exact Keeps.pure true
  | cons p rest ih =>
    intro s hs
    simp only [popOutputs]
    split
    · exact hs
    · split
      · exact hs
      · split
        · exact hs
        · split
          · exact hs
          · split
            · exact hs
            · exact ih _ hs

/-! ## One transaction -/

/-- Recording a transaction leaves the frame alone, however it ends. -/
theorem addTransactionFromBlock_frame (env : Env) (tx : Transaction) (txId : Hash) (h : Nat)
    (i : UInt16) (t : Storage) :
    Keeps (fun s => s.frame = t) (addTransactionFromBlock env tx txId h i) := by
  have extra : Keeps (fun s => s.frame = t) (processBlockchainTxExtra env tx) := fun s hs =>
    (Storage.frame_of_withoutAliases (processBlockchainTxExtra_withoutAliases env tx s)).trans hs
  have unextra : Keeps (fun s => s.frame = t) (unprocessBlockchainTxExtra env tx) := fun s hs =>
    (Storage.frame_of_withoutAliases (unprocessBlockchainTxExtra_withoutAliases env tx s)).trans hs
  have inputs : Keeps (fun s => s.frame = t) (addTransactionInputs env tx.vin) := fun s hs =>
    (Storage.frame_of_withoutSpends
      (addTransactionInputs_withoutSpends env s.withoutSpends tx.vin s rfl)).trans hs
  have purge (strict : Bool) : Keeps (fun s => s.frame = t)
      (purgeTransactionKeyimagesFromBlockchain env tx strict) := fun s hs =>
    (Storage.frame_of_withoutSpends
      (purgeTransactionInputs_withoutSpends env strict s.withoutSpends tx.vin s rfl)).trans hs
  refine Keeps.bind extra fun r => Keeps.ite ?_ (Keeps.pure none)
  refine Keeps.bind inputs fun r => Keeps.ite ?_ ?_
  · intro s hs
    simp only [bind_apply, get_apply]
    split
    · exact Keeps.bind (purge true) (fun _ => Keeps.bind unextra fun _ => Keeps.pure none) s hs
    · unfold pushTransactionToGlobalOutsIndex
      split <;> exact hs
  · exact Keeps.bind (purge false) fun _ => Keeps.bind unextra fun _ => Keeps.pure none

/-! ## Rebuilding -/

/-- The containers a rebuild never writes. -/
def Storage.withoutCaches (s : Storage) : Storage := s.clearAllCacheData

/-- The alias tables are among the caches that `rebuildcache` fills. -/
theorem Storage.withoutCaches_of_withoutAliases {s s' : Storage}
    (h : s'.withoutAliases = s.withoutAliases) : s'.withoutCaches = s.withoutCaches := by
  have := congrArg Storage.clearAllCacheData h
  exact this

/-- Caching one transaction. -/
theorem rebuildTransaction_withoutCaches (env : Env) (b t : Nat) (tx : Transaction) (c : Storage) :
    Keeps (fun s => s.withoutCaches = c) (rebuildTransaction env b t tx) := by
  refine Keeps.bind (fun s hs => ?_) fun r => Keeps.ite (Keeps.ite (Keeps.throw _) ?_)
    (Keeps.pure false)
  · exact (Storage.withoutCaches_of_withoutAliases
      (processBlockchainTxExtra_withoutAliases env tx s)).trans hs
  · exact Keeps.bind (Keeps.modify fun s hs => hs) fun _ => Keeps.pure true

/-- Caching the transactions of a block, by induction. -/
theorem rebuildTransactions_withoutCaches (env : Env) (b t : Nat) (es : List TransactionEntry)
    (c : Storage) : Keeps (fun s => s.withoutCaches = c) (rebuildTransactions env b t es) := by
  induction es generalizing t with
  | nil => exact Keeps.ite (Keeps.throw _) (Keeps.pure _)
  | cons e rest ih =>
    refine Keeps.ite (Keeps.throw _) (Keeps.bind ?_ fun r => Keeps.ite (ih (t + 1)) (Keeps.pure _))
    exact rebuildTransaction_withoutCaches env b t e.tx c

theorem rebuildBlock_withoutCaches (env : Env) (b : Nat) (e : BlockEntry) (c : Storage) :
    Keeps (fun s => s.withoutCaches = c) (rebuildBlock env b e) := by
  refine Keeps.bind (Keeps.modify fun s hs => hs) fun _ => Keeps.bind ?_ fun _ => fun s hs => ?_
  · exact rebuildTransactions_withoutCaches env b 0 e.transactions c
  · unfold appendScratchpad
    split <;> exact hs

theorem rebuildBlocks_withoutCaches (env : Env) (b : Nat) (es : List BlockEntry) (c : Storage) :
    Keeps (fun s => s.withoutCaches = c) (rebuildBlocks env b es) := by
  induction es generalizing b with
  | nil => exact Keeps.pure _
  | cons e rest ih => exact Keeps.bind (rebuildBlock_withoutCaches env b e c) fun _ => ih (b + 1)

/-- `rebuildcache` writes the caches only: from any block on, and wherever it stops. -/
theorem rebuildcache_withoutCaches (env : Env) (start : Nat) (c : Storage) :
    Keeps (fun s => s.withoutCaches = c) (rebuildcache env start) :=
  Keeps.bind Keeps.get fun s => Keeps.bind
    (rebuildBlocks_withoutCaches env start (s.mBlocks.drop start) c) fun _ => Keeps.pure true

/-- `fix_blocks_index` writes the caches only. -/
theorem fixBlocksIndex_withoutCaches (env : Env) (c : Storage) :
    Keeps (fun s => s.withoutCaches = c) (fixBlocksIndex env) := by
  intro s hs
  unfold fixBlocksIndex
  simp only [bind_apply, get_apply]
  split
  · exact hs
  · split
    · exact hs
    · simp only [bind_apply, set_apply]
      split
      · exact hs
      · exact rebuildcache_withoutCaches env 0 c _ hs

theorem fixBlocksIndex_of_length_eq {env : Env} {s : Storage}
    (h : s.mBlocksIndex.length = s.mBlocks.length) : fixBlocksIndex env s = .ok true s := by
  unfold fixBlocksIndex
  simp only [bind_apply, get_apply, if_pos h]
  rfl

end DarknetSpace
