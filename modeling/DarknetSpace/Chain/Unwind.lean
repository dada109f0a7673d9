import DarknetSpace.Chain.Connected
import DarknetSpace.Chain.Undo

/-!
# Popping the block that was just pushed

The transactions of a pushed block are taken out last to first, each from the
storage its own recording left (`Undo.lean`), then the coinbase; then the block
itself goes. The result is the storage before the push, but for two things the
undo does not know: the flags that direct spends set are all cleared, and the
aliases of ordinary transactions stay.

Main result: `popBlock`, for any block that was connected and the storage behind it. It
is used right after a push, and through `Core/Tower` for blocks further down, of which
the storage they were pushed on is known up to just these two things.
-/

namespace DarknetSpace

open StateExn

/-- One of the transactions spends the output directly. -/
def TxsSpend (outputs : Map UInt64 AmountOuts) (txs : List Transaction) (b t o : Nat) : Prop :=
  ∃ tx ∈ txs, Spends outputs tx.vin b t o

theorem txsSpend_cons (outputs : Map UInt64 AmountOuts) (tx : Transaction) (txs : List Transaction)
    (b t o : Nat) :
    TxsSpend outputs (tx :: txs) b t o ↔
      Spends outputs tx.vin b t o ∨ TxsSpend outputs txs b t o := by
  simp [TxsSpend]

/-! ## The storage while a block is being recorded -/

/-- `s` is `s₀` with some transactions of the next block recorded: the blocks
are those of `s₀` up to flags, and new outputs are the next block's. -/
structure OnBase (s₀ s : Storage) : Prop where
  blocks : forgetFlags s.mBlocks = forgetFlags s₀.mBlocks
  outputs : OutputsGrow s₀.mBlocks.length s₀.mOutputs s.mOutputs

section

variable {env : Env} {tx : Transaction} {txId : Hash} {s₀ s sa s' : Storage}
  {txe : TransactionEntry} {i : UInt16}

theorem OnBase.length (h : OnBase s₀ s) : s.mBlocks.length = s₀.mBlocks.length :=
  length_eq_of_forgetFlags h.blocks

theorem OnBase.step (h : OnBase s₀ s)
    (hr : TxRecorded env tx txId ⟨s.mBlocks.length, i⟩ s sa s' txe) : OnBase s₀ s' := by
  constructor
  · rw [hr.blocks, forgetFlags_markSpent]
    exact h.blocks
  · refine h.outputs.trans ?_
    rw [hr.outputs, ← h.length]
    exact outputsGrow_pushOutputs ⟨s.mBlocks.length, i⟩ 0 tx.vout s.mOutputs

/-- A direct spend of a recorded transaction spends an output of the base. -/
theorem OnBase.directTarget (h : OnBase s₀ s)
    (hr : TxRecorded env tx txId ⟨s.mBlocks.length, i⟩ s sa s' txe) :
    ∀ j ∈ tx.vin, directTarget s.mOutputs j = directTarget s₀.mOutputs j :=
  fun j hj => directTarget_of_grown h.outputs h.blocks (hr.directResolves j hj)

theorem OnBase.markSpent (h : OnBase s₀ s)
    (hr : TxRecorded env tx txId ⟨s.mBlocks.length, i⟩ s sa s' txe) (v : Bool)
    (bs : List BlockEntry) :
    FlagsSet (Spends s₀.mOutputs tx.vin) v bs (markSpent s.mOutputs v tx.vin bs) := by
  rw [markSpent_congr (h.directTarget hr)]
  exact .markSpent s₀.mOutputs v tx.vin bs

end

section

variable {env : Env} {now k : Nat} {ids : List Hash} {n n' : Node} {taken : List TakenTx}
  {s₀ : Storage}

/-- The flags the transactions of a block set. -/
theorem TxsTaken.flagsSet (h : TxsTaken env now k ids n taken n') (hb : OnBase s₀ n.chain) :
    FlagsSet (TxsSpend s₀.mOutputs (taken.map (·.entry.tx))) true n.chain.mBlocks
      n'.chain.mBlocks := by
  induction h with
  | nil => exact .none (by simp [TxsSpend])
  | cons _ _ hr _ ih =>
    have hhead := hb.markSpent hr true
    refine (hhead _).trans (hr.blocks ▸ ih (hb.step hr)) fun b t o => ?_
    rw [List.map_cons, txsSpend_cons, hr.entry]
    rfl

/-- Transactions of the block are ordinary: their inputs were checked. -/
theorem checkTxInputs_not_coinbase {s : Storage} {tx : Transaction} {used : Nat}
    (h : s.checkTxInputs env now tx = .ok (some used)) :
    isCoinbase tx.toTransactionPrefix = false := by
  have hin := checkInputs_resolves h
  unfold isCoinbase
  split
  · next g hv =>
    obtain ⟨⟨a, offs, ki, hc⟩, -⟩ := hin (.gen g) (by rw [hv]; exact List.mem_singleton_self _)
    cases hc
  · rfl

end

/-! ## Taking the transactions out -/

theorem purgeTransactions_append {env : Env} {now : Nat} {xs ys : List Hash} {m m₁ m₂ : Node}
    (h₁ : purgeTransactions env now xs m = .ok true m₁)
    (h₂ : purgeTransactions env now ys m₁ = .ok true m₂) :
    purgeTransactions env now (xs ++ ys) m = .ok true m₂ := by
  induction xs generalizing m with
  | nil =>
    cases h₁
    exact h₂
  | cons x rest ih =>
    obtain ⟨r, m', hx, h₁⟩ := bind_eq_ok.1 h₁
    obtain ⟨rs, m'', hrest, h₁⟩ := bind_eq_ok.1 h₁
    have hm : m'' = m₁ ∧ (r && rs) = true := by
      cases hr : (r && rs) with
      | false => rw [hr] at h₁; cases h₁
      | true => rw [hr] at h₁; cases h₁; exact ⟨rfl, rfl⟩
    obtain ⟨rfl, hrs⟩ := hm
    obtain ⟨rfl, rfl⟩ := Bool.and_eq_true_iff.1 hrs
    exact (bind_of_ok hx).trans (bind_of_ok (ih hrest))

theorem purgeTransactions_singleton {env : Env} {now : Nat} {x : Hash} {m m₁ : Node}
    (h : purgeTransactionFromBlockchain env now x m = .ok true m₁) :
    purgeTransactions env now [x] m = .ok true m₁ := by
  show (purgeTransactionFromBlockchain env now x >>= _) m = _
  rw [bind_of_ok h]
  rfl

/-- `m'` is `m` with the ledger of `s`, the flags in `P` cleared, and nothing
missing from the pool. -/
structure Unwound (s : Storage) (P : Nat → Nat → Nat → Prop) (m m' : Node) : Prop where
  chain : m'.chain = { m.chain with
    mTransactions := s.mTransactions
    mOutputs := s.mOutputs
    mSpentKeys := s.mSpentKeys
    mBlocks := m'.chain.mBlocks }
  flags : FlagsSet P false m.chain.mBlocks m'.chain.mBlocks
  pool : ∀ id, m.pool.haveTx id → m'.pool.haveTx id
  popLog : m'.popLog = m.popLog

theorem Unwound.ledger {s : Storage} {P : Nat → Nat → Nat → Prop} {m m' : Node}
    (h : Unwound s P m m') : SameLedger s m'.chain := by
  rw [h.chain]
  exact ⟨rfl, rfl, rfl⟩

/-- The transaction at place `t` of the block at place `b`, read through an
index. -/
theorem transactionByIndex_of_entry {s : Storage} {bs : List BlockEntry} {bei : BlockEntry}
    {t : Nat} {tx : Transaction}
    (hb : forgetFlags s.mBlocks = forgetFlags bs ++ [bei.forgetFlags])
    (ht : (bei.transactions[t]?).map (·.tx) = some tx) (hlt : t < 65536) :
    ∃ txe, s.transactionByIndex ⟨bs.length, UInt16.ofNat t⟩ = .ok txe ∧ txe.tx = tx := by
  have he : (forgetFlags s.mBlocks)[bs.length]? = some bei.forgetFlags := by
    rw [hb, List.getElem?_append_right (by rw [length_forgetFlags]), length_forgetFlags,
      Nat.sub_self]
    rfl
  rw [forgetFlags, List.getElem?_map] at he
  obtain ⟨e, he, hf⟩ := Option.map_eq_some_iff.1 he
  have htx : (e.transactions.map TransactionEntry.forgetFlags)[t]? =
      (bei.transactions.map TransactionEntry.forgetFlags)[t]? := by
    have := congrArg (fun b : BlockEntry => b.transactions[t]?) hf
    exact this
  obtain ⟨txe₀, ht₀, htx₀⟩ := Option.map_eq_some_iff.1 ht
  rw [List.getElem?_map, List.getElem?_map, ht₀] at htx
  obtain ⟨txe, hte, hff⟩ := Option.map_eq_some_iff.1 htx
  refine ⟨txe, transactionByIndex_eq_ok.2 ⟨e, he, ?_⟩, ?_⟩
  · rw [show (UInt16.ofNat t).toNat = t from Nat.mod_eq_of_lt hlt]
    exact hte
  · rw [TransactionEntry.tx_of_forgetFlags hff]
    exact htx₀

section

variable {env : Env} {now k : Nat} {ids : List Hash} {n n' : Node} {taken : List TakenTx}
  {s₀ : Storage}

/-- The transactions of a block, taken out last to first from a chain that has
the block. -/
theorem purgeTransactions_taken (now' : Nat) (h : TxsTaken env now k ids n taken n') {m : Node}
    (bei : BlockEntry) (hbase : OnBase s₀ n.chain) (hled : SameLedger n'.chain m.chain)
    (hblocks : forgetFlags m.chain.mBlocks = forgetFlags s₀.mBlocks ++ [bei.forgetFlags])
    (hentries : ∀ (j : Nat) (t : TakenTx), taken[j]? = some t →
      (bei.transactions[k + 1 + j]?).map (·.tx) = some t.entry.tx)
    (hids : ids = taken.map fun t => getTransactionHash env t.entry.tx)
    (hcount : k + ids.length < 65536)
    (houts : ∀ t ∈ taken, t.entry.tx.vout.length ≤ 65536)
    (hne : NoEmptyOuts n.chain.mOutputs) :
    ∃ m', purgeTransactions env now' ids.reverse m = .ok true m' ∧
      Unwound n.chain (TxsSpend s₀.mOutputs (taken.map (·.entry.tx))) m m' ∧
      ∀ t ∈ taken, TxMemoryPool.checkAmounts t.entry.tx.toTransactionPrefix ≠ none →
        m'.pool.haveTx (getTransactionHash env t.entry.tx) := by
  induction h generalizing m with
  | nil =>
    refine ⟨m, rfl, ⟨?_, .none (by simp [TxsSpend]), fun _ h => h, rfl⟩, by simp⟩
    obtain ⟨ht, ho, hk⟩ := hled
    rw [← ht, ← ho, ← hk]
  | @cons k txId rest n n' txd pool used sa s' entry taken htake hin hr htail ih =>
    have htx : entry.tx = prunedTx n.chain.mIsInCheckpointZone txd.tx := by rw [hr.entry]; rfl
    rw [List.map_cons, List.cons.injEq] at hids
    rw [List.length_cons] at hcount
    -- the transactions behind this one come out first
    obtain ⟨m₁, hpurge, hun, hback⟩ := ih (m := m) (hbase.step hr) hled hblocks
      (fun j t hj => by
        have := hentries (j + 1) t hj
        rwa [show k + 1 + (j + 1) = k + 1 + 1 + j by omega] at this)
      hids.2 (by omega) (fun t ht => houts t (List.mem_cons_of_mem _ ht))
      (by rw [hr.outputs]; exact hne.pushOutputs _ 0 _)
    have hb₁ : forgetFlags m₁.chain.mBlocks = forgetFlags s₀.mBlocks ++ [bei.forgetFlags] :=
      hun.flags.blocks.trans hblocks
    have hread : ∃ txe, m₁.chain.transactionByIndex
        ⟨n.chain.mBlocks.length, UInt16.ofNat (k + 1)⟩ = .ok txe ∧
          txe.tx = prunedTx n.chain.mIsInCheckpointZone txd.tx := by
      rw [hbase.length, ← htx]
      exact transactionByIndex_of_entry hb₁ (hentries 0 _ rfl) (by omega)
    have hcb : isCoinbase (prunedTx n.chain.mIsInCheckpointZone txd.tx).toTransactionPrefix = false :=
      checkTxInputs_not_coinbase hin
    have hp : Purgeable env (prunedTx n.chain.mIsInCheckpointZone txd.tx) txId
        ⟨n.chain.mBlocks.length, UInt16.ofNat (k + 1)⟩ n.chain s' m₁.chain :=
      { ledger := hun.ledger
        blocks := by
          rw [hb₁, hbase.blocks]
          exact List.prefix_append _ _
        read := hread
        id := by rw [hids.1, htx]
        noEmpty := hne
        outs := by
          have := houts _ List.mem_cons_self
          rwa [htx] at this
        checked := .inr ⟨now, used, hin⟩
        aliases := fun hc => by rw [hcb] at hc; cases hc }
    obtain ⟨pool', hpop, hkeep, hme⟩ := purgeTransaction_recorded now' hp hr
    refine ⟨{ m₁ with
        chain := purged env (prunedTx n.chain.mIsInCheckpointZone txd.tx) n.chain m₁.chain
        pool := pool' }, ?_,
      ⟨?_, ?_, fun id hid => hkeep id (hun.pool id hid), hun.popLog⟩, ?_⟩
    · rw [List.reverse_cons]
      exact purgeTransactions_append hpurge (purgeTransactions_singleton hpop)
    · show purged env _ n.chain m₁.chain = _
      unfold purged unaliased
      rw [if_neg (by rw [hcb]; simp), hun.chain]
      rfl
    · show FlagsSet _ false m.chain.mBlocks (purged env _ n.chain m₁.chain).mBlocks
      rw [purged_blocks]
      refine FlagsSet.trans hun.flags (hbase.markSpent hr false m₁.chain.mBlocks) fun b t o => ?_
      rw [List.map_cons, txsSpend_cons, htx, or_comm]
    · intro t ht ha
      rcases List.mem_cons.1 ht with rfl | ht
      · simp only at ha ⊢
        rw [← hids.1]
        rw [htx] at ha
        exact hme hcb ha
      · exact hkeep _ (hback t ht ha)

end

/-! ## The whole block -/

/-- Taking an alias back reads nothing but the alias maps. -/
theorem unaliased_congr (env : Env) (tx : Transaction) {d d' : Storage}
    (ha : d.mAliases = d'.mAliases) (hb : d.mAddrToAlias = d'.mAddrToAlias) :
    (unaliased env tx d).mAliases = (unaliased env tx d').mAliases ∧
      (unaliased env tx d).mAddrToAlias = (unaliased env tx d').mAddrToAlias := by
  unfold unaliased
  split
  · cases txAlias env tx.toTransactionPrefix with
    | none => exact ⟨ha, hb⟩
    | some ai =>
      simp only [Option.elim_some, popAliasInfo, aliasHistory, Storage.setHistory, ha, hb]
      split
      · exact ⟨ha, hb⟩
      · split <;> exact ⟨rfl, rfl⟩
  · exact ⟨ha, hb⟩

namespace Connected

variable {env : Env} {now : Nat} {bl : Block} {id : Hash} {n n' : Node}

/-- The transactions of the block, the coinbase apart. -/
def ordinaryTxs (c : Connected env now bl id n n') : List Transaction :=
  c.taken.map (·.entry.tx)

/-- The transactions taken from the pool are those the block lists. -/
def ListsItsTxs (c : Connected env now bl id n n') : Prop :=
  bl.txHashes = c.ordinaryTxs.map (getTransactionHash env)

theorem onBase (c : Connected env now bl id n n') : OnBase n.chain c.s₁ := by
  have hb : OnBase n.chain (n.chain.setCheckpointZone n.chain.mBlocks.length) :=
    ⟨rfl, .refl _ _⟩
  exact hb.step (i := 0) c.recorded

/-- Recording the coinbase sets no flag. -/
theorem coinbase_blocks (c : Connected env now bl id n n') : c.s₁.mBlocks = n.chain.mBlocks := by
  obtain ⟨g, hv⟩ := c.coinbase_vin
  rw [c.recorded.blocks, hv]
  rfl

/-- The flags a block sets. -/
theorem flagsSet (c : Connected env now bl id n n') :
    FlagsSet (TxsSpend n.chain.mOutputs c.ordinaryTxs) true n.chain.mBlocks c.m.chain.mBlocks := by
  have := c.txs.flagsSet c.onBase
  rwa [show ({ n with chain := c.s₁ } : Node).chain.mBlocks = n.chain.mBlocks from
    c.coinbase_blocks] at this

/-- Ordinary transactions only append to the histories. -/
theorem aliasHistory_taken {k : Nat} {ids : List Hash} {m m' : Node} {taken : List TakenTx}
    (h : TxsTaken env now k ids m taken m') (name : Blob) :
    aliasHistory m'.chain name = aliasHistory m.chain name ++
      taken.flatMap fun t => aliasEntries env t.entry.tx.toTransactionPrefix name := by
  induction h with
  | nil => simp
  | cons _ _ hr _ ih =>
    have hhead := aliasHistory_process hr.extra name
    rw [ih, List.flatMap_cons, ← List.append_assoc, hr.entry]
    exact congrArg (· ++ _) (by
      rw [hr.state]
      exact hhead)

/-- The histories after a block: the coinbase's alias, then those of the
transactions in order. -/
theorem aliasHistory_eq (c : Connected env now bl id n n') (name : Blob) :
    aliasHistory c.m.chain name =
      aliasHistory n.chain name ++ aliasEntries env bl.minerTx.toTransactionPrefix name ++
        c.ordinaryTxs.flatMap fun tx => aliasEntries env tx.toTransactionPrefix name := by
  have hcb : aliasHistory c.s₁ name = aliasHistory n.chain name ++
      aliasEntries env bl.minerTx.toTransactionPrefix name := by
    rw [c.recorded.state]
    exact aliasHistory_process c.recorded.extra name
  rw [aliasHistory_taken c.txs name, ordinaryTxs, List.flatMap_map]
  show aliasHistory c.s₁ name ++ _ = _
  rw [hcb]

/-- What a pop leaves of the pushed block `c`. -/
structure Popped (c : Connected env now bl id n n') (n₂ : Node) : Prop where
  side : n₂.chain.side = n'.chain.side
  popLog : n₂.popLog = n'.popLog ++ [n'.chain]
  ledger : SameLedger n.chain n₂.chain
  index : n₂.chain.mBlocksIndex = n.chain.mBlocksIndex
  flags : FlagsSet (TxsSpend n.chain.mOutputs c.ordinaryTxs) false c.m.chain.mBlocks
    n₂.chain.mBlocks
  aliases : n₂.chain.mAliases = (unaliased env bl.minerTx c.m.chain).mAliases
  scratchpad : n₂.chain.mScratchpad = n.chain.mScratchpad ∨
    popBlockScratchpadData env bl c.pad = .ok (false, c.pad)
  pool : ∀ id, c.m.pool.haveTx id → n₂.pool.haveTx id
  returned : ∀ tx ∈ c.ordinaryTxs, TxMemoryPool.checkAmounts tx.toTransactionPrefix ≠ none →
    n₂.pool.haveTx (getTransactionHash env tx)

/-- What is left when the block's data is purged from `m`. -/
structure Purged (c : Connected env now bl id n n') (m m' : Node) : Prop where
  chain : m'.chain.withoutAliases = { m.chain.withoutAliases with
    mBlocks := m'.chain.mBlocks
    mTransactions := n.chain.mTransactions
    mOutputs := n.chain.mOutputs
    mSpentKeys := n.chain.mSpentKeys }
  flags : FlagsSet (TxsSpend n.chain.mOutputs c.ordinaryTxs) false m.chain.mBlocks m'.chain.mBlocks
  aliases : m'.chain.mAliases = (unaliased env bl.minerTx m.chain).mAliases
  popLog : m'.popLog = m.popLog
  pool : ∀ id, m.pool.haveTx id → m'.pool.haveTx id
  returned : ∀ tx ∈ c.ordinaryTxs, TxMemoryPool.checkAmounts tx.toTransactionPrefix ≠ none →
    m'.pool.haveTx (getTransactionHash env tx)

/-- Purging the block from a node that has it on top, with the ledger the block
left. -/
theorem purgeBlock (c : Connected env now bl id n n') (now' : Nat) {m : Node}
    (hled : SameLedger c.m.chain m.chain)
    (hff : forgetFlags m.chain.mBlocks = forgetFlags n.chain.mBlocks ++ [c.entry.forgetFlags])
    (halias : ∀ ai, txAlias env bl.minerTx.toTransactionPrefix = some ai →
      aliasHistory m.chain ai.mAlias ≠ [])
    (hne : NoEmptyOuts n.chain.mOutputs) (htxs : c.ListsItsTxs) (hcount : bl.txHashes.length < 65536)
    (houts : ∀ t ∈ c.entry.transactions, t.tx.vout.length ≤ 65536) :
    ∃ m', purgeBlockDataFromBlockchain env now' bl bl.txHashes.length m = .ok true m' ∧
      c.Purged m m' := by
  -- the ordinary transactions
  have hne₁ : NoEmptyOuts c.s₁.mOutputs := by
    rw [c.recorded.outputs]
    exact hne.pushOutputs _ 0 _
  obtain ⟨m₁, hpurge, hun, hback⟩ := purgeTransactions_taken now' c.txs c.entry
    c.onBase hled hff
    (fun j t hj => by
      rw [c.entry_transactions, Nat.zero_add, Nat.add_comm, List.getElem?_cons_succ,
        List.getElem?_map, hj]
      rfl)
    (by
      have := htxs
      rwa [ListsItsTxs, ordinaryTxs, List.map_map] at this)
    (by omega)
    (fun t ht => houts t.entry (by
      rw [c.entry_transactions]
      exact List.mem_cons_of_mem _ (List.mem_map_of_mem ht)))
    hne₁
  -- the coinbase
  have hb₁ : forgetFlags m₁.chain.mBlocks = forgetFlags n.chain.mBlocks ++ [c.entry.forgetFlags] := by
    rw [hun.flags.blocks]
    exact hff
  have hma : m₁.chain.mAliases = m.chain.mAliases := by rw [hun.chain]
  have hmd : m₁.chain.mAddrToAlias = m.chain.mAddrToAlias := by rw [hun.chain]
  have hp : Purgeable env bl.minerTx (getTransactionHash env bl.minerTx)
      ⟨n.chain.mBlocks.length, 0⟩ (n.chain.setCheckpointZone n.chain.mBlocks.length) c.s₁
      m₁.chain :=
    { ledger := hun.ledger
      blocks := by
        rw [hb₁]
        exact List.prefix_append _ _
      read := transactionByIndex_of_entry hb₁ (t := 0) (by
        rw [c.entry_transactions, List.getElem?_cons_zero, Option.map_some, c.coinbase_tx])
        (by omega)
      id := rfl
      noEmpty := hne
      outs := by
        rw [← c.coinbase_tx]
        exact houts c.coinbase (by rw [c.entry_transactions]; exact List.mem_cons_self)
      checked := .inl c.isCoinbase_minerTx
      aliases := fun _ ai hai => by
        rw [aliasHistory, hma]
        exact halias ai hai }
  obtain ⟨pool, hcb, hkeep, -⟩ := purgeTransaction_recorded now' hp c.recorded
  refine ⟨{ m₁ with
      chain := purged env bl.minerTx (n.chain.setCheckpointZone n.chain.mBlocks.length) m₁.chain
      pool }, ?_, ?_⟩
  · unfold purgeBlockDataFromBlockchain
    rw [if_neg (by omega), List.take_length]
    exact purgeTransactions_append hpurge (purgeTransactions_singleton hcb)
  · generalize hd : purged env bl.minerTx (n.chain.setCheckpointZone n.chain.mBlocks.length)
      m₁.chain = d
    have hdw : d.withoutAliases = { m₁.chain.withoutAliases with
        mBlocks := d.mBlocks
        mTransactions := n.chain.mTransactions
        mOutputs := n.chain.mOutputs
        mSpentKeys := n.chain.mSpentKeys } := by
      have := congrArg (fun t : Storage => { t with
        mTransactions := n.chain.mTransactions
        mOutputs := n.chain.mOutputs }) (unaliased_withoutAliases env bl.minerTx
          (unspent bl.minerTx (n.chain.setCheckpointZone n.chain.mBlocks.length) m₁.chain))
      rw [← hd, purged_blocks]
      exact this
    have hdb : d.mBlocks = m₁.chain.mBlocks := by
      obtain ⟨g, hv⟩ := c.coinbase_vin
      rw [← hd, purged_blocks, hv]
      rfl
    exact
      { chain := by
          show d.withoutAliases = _
          rw [hdw, hun.chain]
          rfl
        flags := by
          show FlagsSet _ false _ d.mBlocks
          rw [hdb]
          exact hun.flags
        aliases := by
          show d.mAliases = _
          rw [← hd]
          refine (unaliased_congr env bl.minerTx ?_ ?_).1
          · show m₁.chain.mAliases = _
            exact hma
          · show m₁.chain.mAddrToAlias = _
            exact hmd
        popLog := hun.popLog
        pool := fun id hid => hkeep id (hun.pool id hid)
        returned := fun tx htx ha => by
          obtain ⟨t, ht, rfl⟩ := List.mem_map.1 htx
          exact hkeep _ (hback t ht ha) }

/-- **Popping the block that was just pushed.** -/
theorem popBlock (c : Connected env now bl id n n') (now' : Nat) (hid : id = getBlockHash env bl)
    (hsync : n.chain.mBlocksIndex.length = n.chain.mBlocks.length) (hpos : n.chain.mBlocks ≠ [])
    (hne : NoEmptyOuts n.chain.mOutputs) (htxs : c.ListsItsTxs)
    (hcount : bl.txHashes.length < 65536)
    (houts : ∀ t ∈ c.entry.transactions, t.tx.vout.length ≤ 65536) :
    ∃ n₂, popBlockFromBlockchain env now' n' = .ok true n₂ ∧ c.Popped n₂ := by
  have hchain := c.chain_eq hsync
  have hblocks : n'.chain.mBlocks = c.m.chain.mBlocks ++ [c.entry] := by rw [hchain]; rfl
  have hpad : n'.chain.mScratchpad = c.pad := by rw [hchain]; rfl
  have hpool : n'.pool = c.m.pool := by
    have := congrArg Node.pool c.node
    exact this
  have hff : forgetFlags n'.chain.mBlocks = forgetFlags n.chain.mBlocks ++ [c.entry.forgetFlags] := by
    rw [hblocks, forgetFlags_append, c.flagsSet.blocks]
    rfl
  have hpos' : 0 < n.chain.mBlocks.length := List.length_pos_iff.2 hpos
  -- the scratchpad
  obtain ⟨r, pad, hpop, hpadback⟩ : ∃ r pad,
      popBlockScratchpadData env bl n'.chain.mScratchpad = .ok (r, pad) ∧
      (pad = n.chain.mScratchpad ∨ popBlockScratchpadData env bl c.pad = .ok (false, c.pad)) := by
    have hold : c.m.chain.mScratchpad = n.chain.mScratchpad := by
      have := congrArg Storage.mScratchpad c.frame
      exact this
    have hpush := c.scratchpad
    rw [hold] at hpush
    rw [hpad]
    rcases popBlockScratchpadData_push hpush with h | h
    · exact ⟨true, _, h, .inl rfl⟩
    · exact ⟨false, _, h, .inr h⟩
  -- the node the purge starts from
  generalize hm : ({ n' with
    chain := { n'.chain with mScratchpad := pad }, popLog := n'.popLog ++ [n'.chain] } : Node) = m
  have hmb : m.chain.mBlocks = n'.chain.mBlocks := by rw [← hm]
  have hma : m.chain.mAliases = c.m.chain.mAliases := by rw [← hm, hchain]; rfl
  have hmd : m.chain.mAddrToAlias = c.m.chain.mAddrToAlias := by rw [← hm, hchain]; rfl
  have hled : SameLedger c.m.chain m.chain := by
    rw [← hm, hchain]
    exact ⟨rfl, rfl, rfl⟩
  have halias : ∀ ai, txAlias env bl.minerTx.toTransactionPrefix = some ai →
      aliasHistory m.chain ai.mAlias ≠ [] := by
    intro ai hai
    have hhist : aliasHistory m.chain ai.mAlias = aliasHistory c.m.chain ai.mAlias := by
      unfold aliasHistory
      rw [hma]
    rw [hhist, c.aliasHistory_eq, aliasEntries, hai]
    simp
  obtain ⟨m', hall, hpurged⟩ := c.purgeBlock now' hled (hmb ▸ hff) halias hne htxs hcount houts
  have hdi : m'.chain.mBlocksIndex = n.chain.mBlocksIndex ++ [id] := by
    have hi := congrArg Storage.mBlocksIndex hpurged.chain
    have hi' : m'.chain.mBlocksIndex = m.chain.mBlocksIndex := hi
    rw [hi', ← hm, hchain]
    rfl
  refine ⟨{ m' with
    chain := { m'.chain with
      mBlocksIndex := n.chain.mBlocksIndex, mBlocks := m'.chain.mBlocks.dropLast } }, ?_, ?_⟩
  · unfold popBlockFromBlockchain
    rw [bind_of_ok (modify_apply _ n'), bind_of_ok (get_apply _)]
    have hlast : n'.chain.mBlocks.getLast? = some c.entry := by
      rw [hblocks, List.getLast?_concat]
    have hlen : ¬ n'.chain.mBlocks.length ≤ 1 := by
      rw [hblocks, List.length_append, List.length_singleton, c.length]
      omega
    simp only [hlast, if_neg hlen]
    have hread : readChain (fun s => popBlockScratchpadData env c.entry.bl s.mScratchpad)
        { n' with popLog := n'.popLog ++ [n'.chain] } =
          .ok (r, pad) { n' with popLog := n'.popLog ++ [n'.chain] } := readChain_of_ok hpop
    rw [bind_of_ok hread, bind_of_ok (modify_apply _ _)]
    have hpurge : purgeBlockDataFromBlockchain env now' c.entry.bl c.entry.bl.txHashes.length
        { n' with
          chain := { n'.chain with mScratchpad := pad }, popLog := n'.popLog ++ [n'.chain] } =
          .ok true m' := by
      rw [hm]
      exact hall
    rw [bind_of_ok hpurge, if_neg (by simp), bind_of_ok (get_apply _)]
    have htail : indexTailId m'.chain.mBlocksIndex = getBlockHash env c.entry.bl := by
      rw [hdi, indexTailId, List.getLast?_concat]
      exact hid
    simp only [htail, ne_eq, not_true_eq_false, if_false]
    rw [bind_of_ok (modify_apply _ _)]
    simp only [pure_apply, hdi, List.dropLast_concat]
  · exact
      { side := by
          have h₁ := congrArg Storage.side hpurged.chain
          have h₂ := congrArg (fun m : Node => m.chain.side) hm
          exact h₁.trans h₂.symm
        popLog := by
          show m'.popLog = _
          rw [hpurged.popLog, ← hm]
        ledger := by
          have ht := congrArg Storage.mTransactions hpurged.chain
          have ho := congrArg Storage.mOutputs hpurged.chain
          have hk := congrArg Storage.mSpentKeys hpurged.chain
          exact ⟨ht, ho, hk⟩
        index := rfl
        flags := by
          have hfl := hpurged.flags
          rw [hmb, hblocks] at hfl
          exact hfl.dropLast
        aliases := hpurged.aliases.trans (unaliased_congr env bl.minerTx hma hmd).1
        scratchpad := by
          have hs := congrArg Storage.mScratchpad hpurged.chain
          have hs' : m'.chain.mScratchpad = m.chain.mScratchpad := hs
          show m'.chain.mScratchpad = _ ∨ _
          rw [hs', ← hm]
          exact hpadback
        pool := fun id hid => hpurged.pool id (by rw [← hm]; exact hpool ▸ hid)
        returned := hpurged.returned }

end Connected

end DarknetSpace
