import DarknetSpace.Chain.OutputIndex
import DarknetSpace.Chain.Unwind
import DarknetSpace.Core.Rebuilt

/-!
# Runs of pushes and pops, and the global output indexes

A pop takes the top block out through the indexes, so it works because the
indexes are those the push of that block left. After a pop this has to be known
of the block below, whose push is further back: between the two the flags moved
and aliases of ordinary transactions may have stayed. `Tower` is the invariant
that carries it: under every block there is the storage it was pushed on, up to
what a pop does not restore and does not read.

`Connected.view_of_popped` is the step: below a block that is popped stands the tower of
the block under it, with the indexes up to flags and old aliases. Main result:
`push_pop_global_indexes_consistent`, that every output of the chain is found at its
global index, after any sequence of pushes and pops.
-/

namespace DarknetSpace

open StateExn

/-! ## The tower -/

/-- `d` has the blocks, the ids and the ledger of `s`, and for every name at
least as long a history. -/
structure SameView (s d : Storage) : Prop where
  blocks : forgetFlags d.mBlocks = forgetFlags s.mBlocks
  index : d.mBlocksIndex = s.mBlocksIndex
  ledger : SameLedger s d
  aliases : ∀ name, (aliasHistory s name).length ≤ (aliasHistory d name).length

theorem SameView.refl (s : Storage) : SameView s s :=
  ⟨rfl, rfl, ⟨rfl, rfl, rfl⟩, fun _ => Nat.le_refl _⟩

theorem SameView.trans {s d e : Storage} (h₁ : SameView s d) (h₂ : SameView d e) : SameView s e :=
  ⟨h₂.blocks.trans h₁.blocks, h₂.index.trans h₁.index,
    ⟨h₂.ledger.transactions.trans h₁.ledger.transactions,
      h₂.ledger.outputs.trans h₁.ledger.outputs, h₂.ledger.spentKeys.trans h₁.ledger.spentKeys⟩,
    fun name => (h₁.aliases name).trans (h₂.aliases name)⟩

/-- The storage was built block by block: what it looks like is what the push of
its top block left, and the same holds of the storage that block was pushed
on. -/
inductive Tower (env : Env) : Storage → Prop where
  | base {cp : Checkpoints} {d : Storage} (view : SameView (Storage.empty cp) d) : Tower env d
  | block {now : Nat} {bl : Block} {n n' : Node} {d : Storage} (below : Tower env n.chain)
      (sound : Sound env (fun _ => True) n)
      (c : Connected env now bl (getBlockHash env bl) n n') (fits : FitsRebuild c.entry)
      (view : SameView n'.chain d) : Tower env d

theorem Tower.of_view {env : Env} {s d : Storage} (h : Tower env s) (hd : SameView s d) :
    Tower env d := by
  cases h with
  | base view => exact .base (view.trans hd)
  | block below sound c fits view => exact .block below sound c fits (view.trans hd)

section

variable {env : Env} {now : Nat} {bl : Block} {n n' : Node}

/-- The histories after the coinbase's alias is taken back. -/
theorem length_aliasHistory_unaliased {tx : Transaction} {d : Storage}
    (hcb : isCoinbase tx.toTransactionPrefix = true)
    (hh : ∀ ai, txAlias env tx.toTransactionPrefix = some ai → aliasHistory d ai.mAlias ≠ [])
    (name : Blob) :
    (aliasHistory (unaliased env tx d) name).length +
      (aliasEntries env tx.toTransactionPrefix name).length = (aliasHistory d name).length := by
  unfold unaliased aliasEntries
  rw [if_pos hcb]
  cases hai : txAlias env tx.toTransactionPrefix with
  | none => rfl
  | some ai =>
    have hne : aliasHistory d ai.mAlias ≠ [] := hh ai hai
    simp only [Option.elim_some]
    rw [(aliasHistory_popAliasInfo (txAlias_ne_nil hai) hne name).2]
    split
    · next hname =>
      have hpos := List.length_pos_iff.2 (hname ▸ hne)
      rw [List.length_dropLast, List.length_singleton]
      omega
    · rfl

section

variable {d : Storage}

/-- The block a push left on top. -/
theorem Connected.top_of_view (c : Connected env now bl (getBlockHash env bl) n n')
    (hn : Sound env (fun _ => True) n) (hview : SameView n'.chain d) :
    forgetFlags d.mBlocks = forgetFlags n.chain.mBlocks ++ [c.entry.forgetFlags] ∧
      ∃ bei, d.mBlocks.getLast? = some bei ∧ bei.bl = bl := by
  have hff : forgetFlags d.mBlocks = forgetFlags n.chain.mBlocks ++ [c.entry.forgetFlags] := by
    rw [hview.blocks, c.blocks_eq hn, forgetFlags_append]
    rfl
  have hl := congrArg List.getLast? hff
  rw [List.getLast?_concat, forgetFlags, List.getLast?_map] at hl
  obtain ⟨bei, hbei, heq⟩ := Option.map_eq_some_iff.1 hl
  refine ⟨hff, bei, hbei, ?_⟩
  have := congrArg BlockEntry.bl heq
  exact this

/-- The histories have the coinbase's alias on top of those below. -/
theorem Connected.aliases_of_view (c : Connected env now bl (getBlockHash env bl) n n')
    (hn : Sound env (fun _ => True) n) (hview : SameView n'.chain d) (name : Blob) :
    (aliasHistory n.chain name).length +
      (aliasEntries env bl.minerTx.toTransactionPrefix name).length ≤
        (aliasHistory d name).length := by
  have h := hview.aliases name
  have hn' : aliasHistory n'.chain name = aliasHistory c.m.chain name := by
    rw [c.chain_eq hn.sync]
    rfl
  rw [hn', c.aliasHistory_eq, List.length_append, List.length_append] at h
  omega

/-- So a coinbase finds its alias to take back. -/
theorem Connected.coinbaseAlias_of_view (c : Connected env now bl (getBlockHash env bl) n n')
    (hn : Sound env (fun _ => True) n) (hview : SameView n'.chain d) :
    ∀ ai, txAlias env bl.minerTx.toTransactionPrefix = some ai → aliasHistory d ai.mAlias ≠ [] := by
  intro ai hai h0
  have h := c.aliases_of_view hn hview ai.mAlias
  rw [h0, aliasEntries, hai] at h
  simp at h

/-- Everything a pop purges is there. -/
theorem Connected.purge_of_view (c : Connected env now bl (getBlockHash env bl) n n')
    (hn : Sound env (fun _ => True) n) (hfits : FitsRebuild c.entry) (now' : Nat) {m : Node}
    (hview : SameView n'.chain m.chain) :
    ∃ m₂, purgeBlockDataFromBlockchain env now' bl bl.txHashes.length m = .ok true m₂ ∧
      c.Purged m m₂ := by
  have hled : SameLedger c.m.chain m.chain := by
    have h := hview.ledger
    rw [c.chain_eq hn.sync] at h
    exact ⟨h.transactions, h.outputs, h.spentKeys⟩
  have htxs : c.ListsItsTxs := by
    unfold Connected.ListsItsTxs Connected.ordinaryTxs
    rw [List.map_map]
    exact (c.txs.pool hn.pool).2.1
  have hcount : bl.txHashes.length < 65536 := by
    have h := hfits.1
    rw [c.entry_transactions, List.length_cons, List.length_map, c.txs.length] at h
    omega
  exact c.purgeBlock now' hled (c.top_of_view hn hview).1 (c.coinbaseAlias_of_view hn hview)
    hn.outputs htxs hcount fun t ht => (hfits.2 t ht).le

end

/-- **Popping the top of a tower.** -/
theorem Connected.view_of_popped (c : Connected env now bl (getBlockHash env bl) n n')
    (hn : Sound env (fun _ => True) n) (hfits : FitsRebuild c.entry) {now' : Nat} {m m' : Node}
    (hview : SameView n'.chain m.chain) (hpop : popBlockFromBlockchain env now' m = .ok true m') :
    SameView n.chain m'.chain := by
  have halias := c.aliases_of_view hn hview
  have hcoin := c.coinbaseAlias_of_view hn hview
  obtain ⟨hff, bei, hbei, rfl⟩ := c.top_of_view hn hview
  -- the steps of the pop that returned
  unfold popBlockFromBlockchain at hpop
  rw [bind_of_ok (modify_apply _ m), bind_of_ok (get_apply _)] at hpop
  simp only [hbei] at hpop
  split at hpop
  · cases hpop
  · obtain ⟨p, m₁, hread, hpop⟩ := bind_eq_ok.1 hpop
    cases hpad : popBlockScratchpadData env bei.bl m.chain.mScratchpad with
    | error e =>
      have := readChain_of_error (n := { m with popLog := m.popLog ++ [m.chain] })
        (f := fun s => popBlockScratchpadData env bei.bl s.mScratchpad) hpad
      rw [this] at hread
      cases hread
    | ok q =>
      have := readChain_of_ok (n := { m with popLog := m.popLog ++ [m.chain] })
        (f := fun s => popBlockScratchpadData env bei.bl s.mScratchpad) hpad
      rw [this] at hread
      cases hread
      rw [bind_of_ok (modify_apply _ _)] at hpop
      obtain ⟨m₂, hpurge, hpurged⟩ := c.purge_of_view hn hfits now'
        (m := { m with
          chain := { m.chain with mScratchpad := p.2 }, popLog := m.popLog ++ [m.chain] })
        ⟨hview.blocks, hview.index, ⟨hview.ledger.transactions, hview.ledger.outputs,
          hview.ledger.spentKeys⟩, hview.aliases⟩
      rw [bind_of_ok hpurge, if_neg (by simp), bind_of_ok (get_apply m₂)] at hpop
      split at hpop
      · cases hpop
      · rw [bind_of_ok (modify_apply _ m₂)] at hpop
        cases hpop
        have hi : m₂.chain.mBlocksIndex = m.chain.mBlocksIndex := by
          have := congrArg Storage.mBlocksIndex hpurged.chain
          exact this
        refine ⟨?_, ?_, ?_, fun name => ?_⟩
        · have hb := congrArg List.dropLast (hpurged.flags.blocks.trans hff)
          rw [List.dropLast_concat, forgetFlags, ← List.map_dropLast] at hb
          exact hb
        · show m₂.chain.mBlocksIndex.dropLast = _
          have hidx : n'.chain.mBlocksIndex = n.chain.mBlocksIndex ++ [getBlockHash env bei.bl] := by
            rw [c.chain_eq hn.sync]
            rfl
          rw [hi, hview.index, hidx, List.dropLast_concat]
        · have ht := congrArg Storage.mTransactions hpurged.chain
          have ho := congrArg Storage.mOutputs hpurged.chain
          have hk := congrArg Storage.mSpentKeys hpurged.chain
          exact ⟨ht, ho, hk⟩
        · have hlen := length_aliasHistory_unaliased c.isCoinbase_minerTx hcoin name
          have hle := halias name
          have heq : aliasHistory m₂.chain name =
              aliasHistory (unaliased env bei.bl.minerTx m.chain) name := by
            unfold aliasHistory
            rw [hpurged.aliases]
            refine congrArg (fun a => Std.ExtTreeMap.getD a name []) ?_
            refine (unaliased_congr env bei.bl.minerTx ?_ ?_).1
            · rfl
            · rfl
          show (aliasHistory n.chain name).length ≤ (aliasHistory m₂.chain name).length
          rw [heq]
          omega

/-- A pop that finds a tower takes its block out, or touches nothing. -/
theorem Connected.popBlock_of_view (c : Connected env now bl (getBlockHash env bl) n n')
    (hn : Sound env (fun _ => True) n) (hfits : FitsRebuild c.entry) (now' : Nat) {m : Node}
    (hm : Sound env (fun _ => True) m) (hview : SameView n'.chain m.chain) :
    (∃ m', popBlockFromBlockchain env now' m = .ok true m') ∨
      (stateOf (popBlockFromBlockchain env now' m)).chain = m.chain := by
  obtain ⟨-, bei, hbei, rfl⟩ := c.top_of_view hn hview
  unfold popBlockFromBlockchain
  rw [bind_of_ok (modify_apply _ m), bind_of_ok (get_apply _)]
  simp only [hbei]
  split
  · exact .inr rfl
  · cases hpad : popBlockScratchpadData env bei.bl m.chain.mScratchpad with
    | error e =>
      have hread := readChain_of_error (n := { m with popLog := m.popLog ++ [m.chain] })
        (f := fun s => popBlockScratchpadData env bei.bl s.mScratchpad) hpad
      rw [bind_of_error hread]
      exact .inr rfl
    | ok p =>
      have hread := readChain_of_ok (n := { m with popLog := m.popLog ++ [m.chain] })
        (f := fun s => popBlockScratchpadData env bei.bl s.mScratchpad) hpad
      rw [bind_of_ok hread, bind_of_ok (modify_apply _ _)]
      obtain ⟨m₂, hpurge, hpurged⟩ := c.purge_of_view hn hfits now'
        (m := { m with
          chain := { m.chain with mScratchpad := p.2 }, popLog := m.popLog ++ [m.chain] })
        ⟨hview.blocks, hview.index, ⟨hview.ledger.transactions, hview.ledger.outputs,
          hview.ledger.spentKeys⟩, hview.aliases⟩
      -- the index still ends with the id of the block
      have hi : m₂.chain.mBlocksIndex = m.chain.mBlocksIndex := by
        have := congrArg Storage.mBlocksIndex hpurged.chain
        exact this
      have htail : indexTailId m₂.chain.mBlocksIndex = getBlockHash env bei.bl := by
        unfold indexTailId
        rw [hi, hm.index, blockIds, List.getLast?_map, hbei]
        rfl
      rw [bind_of_ok hpurge, if_neg (by simp), bind_of_ok (get_apply m₂), if_neg (by simp [htail])]
      exact .inl ⟨_, rfl⟩

/-- A pop that returned `true` leaves a tower. -/
theorem Tower.pop {now' : Nat} {m m' : Node} (h : Tower env m.chain)
    (hpop : popBlockFromBlockchain env now' m = .ok true m') : Tower env m'.chain := by
  generalize hd : m.chain = d at h
  cases h with
  | base view =>
    -- there is nothing to pop
    subst hd
    have hnil : m.chain.mBlocks = [] := by
      have := length_eq_of_forgetFlags view.blocks
      exact List.length_eq_zero_iff.1 this
    unfold popBlockFromBlockchain at hpop
    rw [bind_of_ok (modify_apply _ m), bind_of_ok (get_apply _)] at hpop
    simp only [hnil] at hpop
    cases hpop
  | block below sound c fits view =>
    subst hd
    exact below.of_view (c.view_of_popped sound fits view hpop)

/-- A pop that finds a tower leaves one, or touches nothing. -/
theorem Tower.popBlock (now' : Nat) {m : Node} (h : Tower env m.chain)
    (hm : Sound env (fun _ => True) m) :
    Tower env (stateOf (popBlockFromBlockchain env now' m)).chain := by
  have hcases : (∃ m', popBlockFromBlockchain env now' m = .ok true m') ∨
      (stateOf (popBlockFromBlockchain env now' m)).chain = m.chain := by
    generalize hd : m.chain = d at h
    cases h with
    | base view =>
      -- there is nothing to pop
      have hnil : m.chain.mBlocks = [] := by
        have := length_eq_of_forgetFlags view.blocks
        rw [hd]
        exact List.length_eq_zero_iff.1 this
      right
      unfold popBlockFromBlockchain
      rw [bind_of_ok (modify_apply _ m), bind_of_ok (get_apply _)]
      simp only [hnil]
      exact hd
    | block below sound c fits view =>
      subst hd
      exact c.popBlock_of_view sound fits now' hm view
  rcases hcases with ⟨m', hpop⟩ | hsame
  · have hleft := h.pop hpop
    rw [hpop]
    exact hleft
  · rw [hsame]
    exact h

end

/-! ## The indexes of a tower -/

section

variable {env : Env} {ts : List Placed}

theorem TxRecorded.indexed {tx : Transaction} {idx : TransactionIndex} {s sa s' : Storage}
    {txe : TransactionEntry}
    (h : TxRecorded env tx (getTransactionHash env tx) idx s sa s' txe)
    (hi : Indexed ts s.mTransactions s.mOutputs) :
    Indexed (ts ++ [⟨getTransactionHash env txe.tx, idx, txe.tx.vout, txe.mGlobalOutputIndexes⟩])
      s'.mTransactions s'.mOutputs := by
  rw [h.transactions, h.outputs, h.entry]
  exact hi.push h.fresh idx tx.vout

theorem TxsTaken.indexed {now k : Nat} {ids : List Hash} {n n' : Node} {taken : List TakenTx}
    (h : TxsTaken env now k ids n taken n') {b : Nat} (hb : n.chain.mBlocks.length = b)
    (hids : ids = taken.map fun t => getTransactionHash env t.entry.tx)
    (hi : Indexed ts n.chain.mTransactions n.chain.mOutputs) :
    Indexed (ts ++ placedFrom env b (k + 1) (taken.map (·.entry))) n'.chain.mTransactions
      n'.chain.mOutputs := by
  induction h generalizing ts with
  | nil =>
    rw [List.map_nil, placedFrom, List.append_nil]
    exact hi
  | @cons k txId rest n n' txd pool used sa s' entry taken _ _ hr _ ih =>
    rw [List.map_cons, List.cons.injEq] at hids
    have htx : entry.tx = prunedTx n.chain.mIsInCheckpointZone txd.tx := by
      rw [hr.entry]
      rfl
    have hr' : TxRecorded env entry.tx (getTransactionHash env entry.tx)
        ⟨b, UInt16.ofNat (k + 1)⟩ n.chain sa s' entry := by
      rw [← hb, ← hids.1, htx]
      exact hr
    have hlen : s'.mBlocks.length = n.chain.mBlocks.length := Storage.length_of_frame hr.frame
    have htail := ih (hlen.trans hb) hids.2 (hr'.indexed hi)
    rw [List.append_assoc] at htail
    exact htail

/-- A block adds its transactions to the indexes, in order. -/
theorem Connected.indexed {now : Nat} {bl : Block} {n n' : Node}
    (c : Connected env now bl (getBlockHash env bl) n n') (hn : Sound env (fun _ => True) n)
    (hi : Indexed (placedBlocks env 0 n.chain.mBlocks) n.chain.mTransactions n.chain.mOutputs) :
    Indexed (placedBlocks env 0 n'.chain.mBlocks) n'.chain.mTransactions n'.chain.mOutputs := by
  have hlen₁ : c.s₁.mBlocks.length = n.chain.mBlocks.length := by rw [c.coinbase_blocks]
  have hall := c.txs.indexed hlen₁ (c.txs.pool hn.pool).2.1 (c.coinbase_recorded.indexed hi)
  rw [List.append_assoc] at hall
  have hplaced : placedBlocks env 0 n'.chain.mBlocks = placedBlocks env 0 n.chain.mBlocks ++
      placedFrom env n.chain.mBlocks.length 0 c.entry.transactions := by
    rw [← placedBlocks_forgetFlags, c.blocks_eq hn, placedBlocks_forgetFlags, placedBlocks_append,
      Nat.zero_add, placedBlocks, placedBlocks, List.append_nil]
  rw [hplaced, c.chain_eq hn.sync]
  exact hall

/-- The indexes of a tower are those its transactions make. -/
theorem Tower.indexed {s : Storage} (h : Tower env s) :
    Indexed (placedBlocks env 0 s.mBlocks) s.mTransactions s.mOutputs := by
  induction h with
  | base view =>
    rw [← placedBlocks_forgetFlags, view.blocks, view.ledger.transactions, view.ledger.outputs]
    exact .nil
  | block _ sound c _ view ih =>
    rw [← placedBlocks_forgetFlags, view.blocks, placedBlocks_forgetFlags,
      view.ledger.transactions, view.ledger.outputs]
    exact c.indexed sound ih

theorem Tower.fits {s : Storage} (h : Tower env s) : ∀ e ∈ s.mBlocks, FitsRebuild e := by
  induction h with
  | base view =>
    refine fitsRebuild_congr view.blocks ?_
    intro e he
    cases he
  | block _ sound c fits view ih =>
    refine fitsRebuild_congr (view.blocks.trans (c.blocks_eq sound)) ?_
    intro e he
    rcases List.mem_append.1 he with he | he
    · exact ih e he
    · rw [List.mem_singleton.1 he]
      exact fits

end

/-! ## Runs -/

/-- The nodes reached from nothing by incoming transactions, added blocks and
pops that returned `true`, with fewer transactions in a block and outputs in a
transaction than the 16-bit counters hold. -/
inductive PushPopRun (env : Env) : Node → Prop where
  | start (cp : Checkpoints) : PushPopRun env (Node.initial cp)
  | incomingTx {m m' : Node} {now : Nat} {blob : Blob} {kept : Bool} (h : PushPopRun env m)
      (ends : EndsIn (handleIncomingTx env now blob kept m) m') : PushPopRun env m'
  | push {m m' : Node} {now : Nat} {bl : Block} (h : PushPopRun env m)
      (added : handleBlockToMainChain env now bl (getBlockHash env bl) m = .ok .added m')
      (fits : ∀ e ∈ m'.chain.mBlocks, FitsRebuild e) : PushPopRun env m'
  | pop {m m' : Node} {now : Nat} (h : PushPopRun env m)
      (popped : popBlockFromBlockchain env now m = .ok true m') : PushPopRun env m'

theorem PushPopRun.tower {env : Env} {n : Node} (h : PushPopRun env n) :
    Tower env n.chain ∧ Sound env (fun _ => True) n := by
  induction h with
  | start cp => exact ⟨.base (.refl _), Sound.initial env _ cp⟩
  | incomingTx _ ends ih =>
    obtain ⟨hchain, hsound⟩ := ends.poolOnly ih.2
    exact ⟨hchain ▸ ih.1, hsound⟩
  | push _ added fits ih =>
    obtain ⟨c⟩ := handleBlockToMainChain_added added
    have hentry := fitsRebuild_congr (c.blocks_eq ih.2).symm fits c.entry
      (List.mem_append_right _ (List.mem_singleton.2 rfl))
    exact ⟨.block ih.1 ih.2 c hentry (.refl _), c.sound ih.2⟩
  | @pop _ _ now _ popped ih =>
    have hpop := popBlock_shortenedOrQuiet ih.2 now
    rw [popped] at hpop
    exact ⟨ih.1.pop popped, hpop.sound⟩

/-! ## The global indexes -/

/-- What the two copies of the global output indexes say about each other, and
what the functions that serve them answer. -/
structure GlobalIndexesConsistent (env : Env) (s : Storage) : Prop where
  /-- The index an entry keeps for an output is its one place under its amount. -/
  place : ∀ t txe, s.transactionByIndex t = .ok txe → ∀ (k : Nat) o, txe.tx.vout[k]? = some o →
    ∃ g, txe.mGlobalOutputIndexes[k]? = some g ∧
      ∀ i : Nat, (s.mOutputs.getD o.amount [])[i]? = some (t, UInt16.ofNat k) ↔ i = g
  /-- What stands under an amount is an output of that amount. -/
  output : ∀ (a : UInt64) (i : Nat) t k, (s.mOutputs.getD a [])[i]? = some (t, k) →
    ∃ txe o, s.transactionByIndex t = .ok txe ∧ txe.tx.vout[k.toNat]? = some o ∧ o.amount = a
  order : ∀ a : UInt64, (s.mOutputs.getD a []).Pairwise OutputBefore
  noEmpty : NoEmptyOuts s.mOutputs
  /-- `get_tx_outputs_gindexs` answers for transactions of the chain only, with
  the indexes of their entries. -/
  served : ∀ id gs, s.getTxOutputsGindexs id = .ok (some gs) →
    ∃ t txe, s.transactionByIndex t = .ok txe ∧ getTransactionHash env txe.tx = id ∧
      gs = txe.mGlobalOutputIndexes
  /-- It answers for each of them that has an output, and a ring that names the
  index it gives for an output is checked against that output. -/
  agree : ∀ t txe, s.transactionByIndex t = .ok txe → ∀ (k : Nat) o, txe.tx.vout[k]? = some o →
    ∃ gs g outs, s.getTxOutputsGindexs (getTransactionHash env txe.tx) = .ok (some gs) ∧
      gs[k]? = some g ∧ s.mOutputs[o.amount]? = some outs ∧
      ∀ now ringSize (i : UInt64), i.toNat = g →
        Storage.scanOutput env now s outs ringSize i = .ok (s.usableOutput now ringSize txe o)

section

variable {env : Env} {s : Storage}

/-- A transaction that can be read is one of those the indexes list. -/
theorem placed_of_read {t : TransactionIndex} {txe : TransactionEntry}
    (h : s.transactionByIndex t = .ok txe) :
    ⟨getTransactionHash env txe.tx, t, txe.tx.vout, txe.mGlobalOutputIndexes⟩ ∈
      placedBlocks env 0 s.mBlocks := by
  obtain ⟨e, he, ht⟩ := transactionByIndex_eq_ok.1 h
  refine mem_placedBlocks.2 ⟨t.block, e, he, mem_placedFrom.2 ⟨t.transaction.toNat, txe, ht, ?_⟩⟩
  rw [Nat.zero_add, Nat.zero_add, UInt16.ofNat_toNat]

/-- And the other way round, while the counters hold. -/
theorem read_of_placed {p : Placed} (h : p ∈ placedBlocks env 0 s.mBlocks)
    (hfits : ∀ e ∈ s.mBlocks, FitsRebuild e) :
    ∃ txe, s.transactionByIndex p.idx = .ok txe ∧
      p = ⟨getTransactionHash env txe.tx, p.idx, txe.tx.vout, txe.mGlobalOutputIndexes⟩ := by
  obtain ⟨b, e, he, h⟩ := mem_placedBlocks.1 h
  obtain ⟨t, txe, ht, rfl⟩ := mem_placedFrom.1 h
  have hlt := (List.getElem?_eq_some_iff.1 ht).1
  have hcount := (hfits e (List.mem_of_getElem? he)).1
  refine ⟨txe, transactionByIndex_eq_ok.2 ⟨e, ?_, ?_⟩, rfl⟩
  · show s.mBlocks[0 + b]? = some e
    rw [Nat.zero_add]
    exact he
  · show e.transactions[(UInt16.ofNat (0 + t)).toNat]? = some txe
    rw [Nat.zero_add, UInt16.toNat_ofNat', Nat.mod_eq_of_lt (by omega)]
    exact ht

/-- A tower's global indexes are consistent. -/
theorem Tower.globalIndexesConsistent (h : Tower env s) : GlobalIndexesConsistent env s := by
  have hfits := h.fits
  have hc := h.indexed.consistent (inOrder_placedBlocks fun e he =>
    ⟨(hfits e he).1.le, fun t ht => ((hfits e he).2 t ht).le⟩)
  -- every output of the chain is at the place its entry says
  have hplace : ∀ t txe, s.transactionByIndex t = .ok txe → ∀ k o, txe.tx.vout[k]? = some o →
      ∃ g, txe.mGlobalOutputIndexes[k]? = some g ∧
        (s.mOutputs.getD o.amount [])[g]? = some (t, UInt16.ofNat k) :=
    fun t txe ht => hc.place _ (placed_of_read ht)
  have hfiled : ∀ t txe, s.transactionByIndex t = .ok txe →
      s.mTransactions[getTransactionHash env txe.tx]? = some t :=
    fun t txe ht => (hc.transactions _ t).2 ⟨_, placed_of_read ht, rfl, rfl⟩
  refine ⟨fun t txe ht k o hk => ?_, fun a i t k hi => ?_, hc.order, hc.noEmpty,
    fun id gs hgs => ?_, fun t txe ht k o hk => ?_⟩
  · obtain ⟨g, hg, hp⟩ := hplace t txe ht k o hk
    refine ⟨g, hg, fun i => ?_⟩
    constructor
    · intro hi
      exact hc.unique hi hp
    · intro hi
      rw [hi]
      exact hp
  · obtain ⟨p, hp, hidx, o, ho, ha⟩ := hc.output a i _ hi
    obtain ⟨txe, hread, hpe⟩ := read_of_placed hp hfits
    rw [hidx] at hread
    refine ⟨txe, o, hread, ?_, ha⟩
    rw [hpe] at ho
    exact ho
  · obtain ⟨t, ht, txe, hread, hgs, -⟩ := Storage.getTxOutputsGindexs_eq_some.1 hgs
    obtain ⟨p, hp, hid, hidx⟩ := (hc.transactions id t).1 ht
    obtain ⟨txe', hread', hpe⟩ := read_of_placed hp hfits
    rw [hidx, hread] at hread'
    cases hread'
    refine ⟨t, txe, hread, ?_, hgs⟩
    rw [hpe] at hid
    exact hid
  · obtain ⟨g, hg, hp⟩ := hplace t txe ht k o hk
    have hlt := (List.getElem?_eq_some_iff.1 hk).1
    -- numbers of outputs are kept in sixteen bits
    have hk' : (UInt16.ofNat k).toNat = k := by
      obtain ⟨e, he, hte⟩ := transactionByIndex_eq_ok.1 ht
      have hout := (hfits e (List.mem_of_getElem? he)).2 txe (List.mem_of_getElem? hte)
      exact Nat.mod_eq_of_lt (by omega)
    have houts : s.mOutputs[o.amount]? = some (s.mOutputs.getD o.amount []) := by
      refine getElem?_of_getD_ne_nil fun h0 => ?_
      rw [h0] at hp
      cases hp
    refine ⟨txe.mGlobalOutputIndexes, g, _, ?_, hg, houts, fun now ringSize i hi => ?_⟩
    · refine Storage.getTxOutputsGindexs_eq_some.2 ⟨t, hfiled t txe ht, txe, ht, rfl, ?_⟩
      intro h0
      rw [h0] at hg
      cases hg
    · have hcontains : s.mTransactions.contains (getTransactionHash env txe.tx) = true := by
        rw [Std.ExtTreeMap.contains_eq_isSome_getElem?, hfiled t txe ht]
        rfl
      rw [← hi] at hp
      exact Storage.scanOutput_of_read hp ht hcontains (hk'.symm ▸ hk)

end

/-- **Global output indexes are consistent** after any sequence of pushes and
pops. -/
theorem push_pop_global_indexes_consistent {env : Env} {n : Node} (h : PushPopRun env n) :
    GlobalIndexesConsistent env n.chain := h.tower.1.globalIndexesConsistent

/-- The genesis block and two more, of which the second is popped again. -/
theorem push_pop_global_indexes_consistent_devnet :
    ∃ n, PushPopRun Devnet.env n ∧ n.chain.mBlocks.length = 2 ∧
      GlobalIndexesConsistent Devnet.env n.chain := by
  have eval :
      let r₀ := handleBlockToMainChain Devnet.env Devnet.now Devnet.genesis
        (getBlockHash Devnet.env Devnet.genesis) (Node.initial ∅)
      let r₁ := handleBlockToMainChain Devnet.env Devnet.now (Devnet.mainBlock 1)
        (getBlockHash Devnet.env (Devnet.mainBlock 1)) (stateOf r₀)
      let r₂ := handleBlockToMainChain Devnet.env Devnet.now (Devnet.mainBlock 2)
        (getBlockHash Devnet.env (Devnet.mainBlock 2)) (stateOf r₁)
      let r₃ := popBlockFromBlockchain Devnet.env Devnet.now (stateOf r₂)
      isAdded r₀ = true ∧ isAdded r₁ = true ∧ isAdded r₂ = true ∧ isOkTrue r₃ = true ∧
        (stateOf r₃).chain.mBlocks.length = 2 ∧
        (∀ e ∈ (stateOf r₀).chain.mBlocks, e.transactions.length < 65536 ∧
          ∀ t ∈ e.transactions, t.tx.vout.length < 65536) ∧
        (∀ e ∈ (stateOf r₁).chain.mBlocks, e.transactions.length < 65536 ∧
          ∀ t ∈ e.transactions, t.tx.vout.length < 65536) ∧
        ∀ e ∈ (stateOf r₂).chain.mBlocks, e.transactions.length < 65536 ∧
          ∀ t ∈ e.transactions, t.tx.vout.length < 65536 := by
    decide +kernel
  obtain ⟨h₀, h₁, h₂, h₃, hlen, f₀, f₁, f₂⟩ := eval
  have hrun := ((((PushPopRun.start ∅).push (eq_added h₀) f₀).push (eq_added h₁) f₁).push
    (eq_added h₂) f₂).pop (eq_okTrue h₃)
  exact ⟨_, hrun, hlen, push_pop_global_indexes_consistent hrun⟩

end DarknetSpace
