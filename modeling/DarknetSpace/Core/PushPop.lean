import DarknetSpace.Chain.Unwind
import DarknetSpace.Core.Sound

/-!
# A pushed block, popped again

On a node of any run, a block that was accepted comes out again: the pop
returns `true` and gives back the block index, the transaction index, the key
images and the output index exactly, and the transactions go back to the pool.
Two things are not always undone.

A flag that marks an output as spent is cleared, even when an older transaction
had set it: two direct spends of one output, under different key images, and
the pop of the second forgets the first. And the alias of an ordinary
transaction stays in its history.
-/

namespace DarknetSpace

open StateExn

/-! ## The transactions of a block, as the pool holds them -/

/-- A transaction the block lists, in the pool. -/
def ListedTx (n : Node) (bl : Block) (txd : TxDetails) : Prop :=
  ∃ id ∈ bl.txHashes, n.pool.mTransactions[id]? = some txd

/-- Each transaction taken was in the pool from the start. -/
theorem TxsTaken.fromPool {env : Env} {now k : Nat} {ids : List Hash} {m m' : Node}
    {taken : List TakenTx} (h : TxsTaken env now k ids m taken m') :
    List.Forall₂ (fun id t => ∃ txd, m.pool.mTransactions[id]? = some txd ∧
      t.entry.tx.toTransactionPrefix = txd.tx.toTransactionPrefix) ids taken := by
  induction h with
  | nil => exact .nil
  | @cons k txId rest m m' txd pool used sa s' entry taken htake _ hr _ ih =>
    obtain ⟨hm, hp⟩ := takeTx_transactions htake
    refine .cons ⟨txd, hm, ?_⟩ (ih.imp ?_)
    · rw [hr.entry]
      exact prunedTx_toPrefix _ _
    · rintro id t ⟨txd', hm', heq⟩
      refine ⟨txd', ?_, heq⟩
      simp only [hp] at hm'
      rw [Std.ExtTreeMap.getElem?_erase] at hm'
      split at hm'
      · cases hm'
      · exact hm'

section

variable {env : Env} {now : Nat} {bl : Block} {id : Hash} {n n' : Node}

theorem forall₂_exists_right {α β : Type} {R : α → β → Prop} {xs : List α} {ys : List β}
    (h : List.Forall₂ R xs ys) : ∀ y ∈ ys, ∃ x ∈ xs, R x y := by
  induction h with
  | nil => simp
  | cons hr _ ih =>
    intro y hy
    rcases List.mem_cons.1 hy with rfl | hy
    · exact ⟨_, List.mem_cons_self, hr⟩
    · obtain ⟨x, hx, hxy⟩ := ih y hy
      exact ⟨x, List.mem_cons_of_mem _ hx, hxy⟩

theorem forall₂_exists_left {α β : Type} {R : α → β → Prop} {xs : List α} {ys : List β}
    (h : List.Forall₂ R xs ys) : ∀ x ∈ xs, ∃ y ∈ ys, R x y :=
  forall₂_exists_right h.flip

/-- The block's transactions and the pool's agree in everything but
signatures. -/
theorem Connected.forall_ordinary_iff (c : Connected env now bl id n n')
    (P : TransactionPrefix → Prop) :
    (∀ tx ∈ c.ordinaryTxs, P tx.toTransactionPrefix) ↔
      ∀ txd, ListedTx n bl txd → P txd.tx.toTransactionPrefix := by
  have hpool := c.txs.fromPool
  constructor
  · rintro h txd ⟨i, hi, hm⟩
    obtain ⟨t, ht, txd', hm', heq⟩ := forall₂_exists_left hpool i hi
    have hsame : some txd = some txd' := hm.symm.trans hm'
    cases hsame
    rw [← heq]
    exact h t.entry.tx (List.mem_map_of_mem ht)
  · intro h tx htx
    obtain ⟨t, ht, rfl⟩ := List.mem_map.1 htx
    obtain ⟨i, hi, txd, hm, heq⟩ := forall₂_exists_right hpool t ht
    rw [heq]
    exact h txd ⟨i, hi, hm⟩

/-- The bounds below which the code's 16-bit counters do not wrap. -/
structure FitsCounters (n : Node) (bl : Block) : Prop where
  transactions : bl.txHashes.length < 65536
  coinbase : bl.minerTx.vout.length < 65536
  outputs : ∀ txd, ListedTx n bl txd → txd.tx.vout.length < 65536

/-- What every accepted block of a run can rely on when it is popped. -/
theorem Connected.popBlock_of_sound {G : TransactionPrefix → Prop}
    (c : Connected env now bl (getBlockHash env bl) n n') (now' : Nat) (hn : Sound env G n)
    (hne : n.chain.mBlocks ≠ []) (hfits : FitsCounters n bl) :
    ∃ n₂, popBlockFromBlockchain env now' n' = .ok true n₂ ∧ c.Popped n₂ := by
  refine c.popBlock now' rfl hn.sync hne hn.outputs ?_ hfits.transactions ?_
  · unfold ListsItsTxs ordinaryTxs
    rw [List.map_map]
    exact (c.txs.pool hn.pool).2.1
  · intro t ht
    rw [c.entry_transactions, List.mem_cons] at ht
    rcases ht with rfl | ht
    · rw [c.coinbase_tx]
      exact hfits.coinbase.le
    · obtain ⟨t', ht', rfl⟩ := List.mem_map.1 ht
      have houts := (c.forall_ordinary_iff fun p => p.vout.length < 65536).2 hfits.outputs
      exact (houts t'.entry.tx (List.mem_map_of_mem ht')).le

end

/-! ## The ledger -/

/-- Popping `bl` off `n'` returns `true` and restores the ledger of `n`. -/
structure PopRestoresLedger (env : Env) (now : Nat) (bl : Block) (n n' n₂ : Node) : Prop where
  returns : popBlockFromBlockchain env now n' = .ok true n₂
  blocks : n₂.chain.mBlocks = n.chain.mBlocks
  blocksIndex : n₂.chain.mBlocksIndex = n.chain.mBlocksIndex
  transactions : n₂.chain.mTransactions = n.chain.mTransactions
  spentKeys : n₂.chain.mSpentKeys = n.chain.mSpentKeys
  outputs : n₂.chain.mOutputs = n.chain.mOutputs
  pool : ∀ id ∈ bl.txHashes, ∀ txd, n.pool.mTransactions[id]? = some txd →
    TxMemoryPool.checkAmounts txd.tx.toTransactionPrefix ≠ none → n₂.pool.haveTx id

/-- No transaction of the block spends directly an output that is flagged as
spent already. -/
def SpendsUnflagged (n : Node) (bl : Block) : Prop :=
  ∀ txd, ListedTx n bl txd → ∀ b t o, Spends n.chain.mOutputs txd.tx.vin b t o →
    flagAt n.chain.mBlocks b t o ≠ some true

/-- The blocks come back exactly when no flag the block sets was set before. -/
theorem Connected.Popped.blocks_eq_iff {env : Env} {now : Nat} {bl : Block} {id : Hash}
    {n n' n₂ : Node} {c : Connected env now bl id n n'} (hp : c.Popped n₂) :
    n₂.chain.mBlocks = n.chain.mBlocks ↔ SpendsUnflagged n bl := by
  rw [c.flagsSet.roundTrip_iff hp.flags]
  unfold SpendsUnflagged
  rw [← c.forall_ordinary_iff fun p => ∀ b t o, Spends n.chain.mOutputs p.vin b t o →
    flagAt n.chain.mBlocks b t o ≠ some true]
  constructor
  · rintro h tx htx b t o hs
    exact h b t o ⟨tx, htx, hs⟩
  · rintro h b t o ⟨tx, htx, hs⟩
    exact h tx htx b t o hs

theorem eq_of_returns {x : NodeM Bool} {n n₁ n₂ : Node} (h₁ : x n = .ok true n₁)
    (h₂ : x n = .ok true n₂) : n₁ = n₂ := by
  have h := h₁.symm.trans h₂
  cases h
  rfl

/-- **A pop undoes the ledger effect of a push** exactly when no transaction of
the block spends directly an output that was flagged as spent before. -/
theorem push_pop_restores_ledger_iff {env : Env} {now : Nat} {bl : Block} {n n' : Node}
    (hn : Reachable env n)
    (hpush : handleBlockToMainChain env now bl (getBlockHash env bl) n = .ok .added n')
    (hfits : FitsCounters n bl) (now' : Nat) :
    (∃ n₂, PopRestoresLedger env now' bl n n' n₂) ↔ SpendsUnflagged n bl := by
  obtain ⟨hsound, hne⟩ := hn.sound (guaranteed_true env)
  obtain ⟨c⟩ := handleBlockToMainChain_added hpush
  obtain ⟨n₂, hpop, hp⟩ := c.popBlock_of_sound now' hsound hne hfits
  constructor
  · rintro ⟨n₃, h⟩
    have hsame := eq_of_returns h.returns hpop
    exact hp.blocks_eq_iff.1 (hsame ▸ h.blocks)
  · intro h
    refine ⟨n₂, hpop, hp.blocks_eq_iff.2 h, hp.index, hp.ledger.transactions, hp.ledger.spentKeys,
      hp.ledger.outputs, fun id hid txd hm ha => ?_⟩
    have hid' : getTransactionHash env txd.tx = id := (hsound.pool id txd hm).id_eq
    obtain ⟨t, ht, txd', hm', heq⟩ := forall₂_exists_left c.txs.fromPool id hid
    have hsame : some txd = some txd' := hm.symm.trans hm'
    cases hsame
    have hback := hp.returned t.entry.tx (List.mem_map_of_mem ht) (by rw [heq]; exact ha)
    rwa [getTransactionHash, heq, ← getTransactionHash, hid'] at hback

namespace Devnet

/-- The genesis coinbase is spent at height 60, and once more, under another
key image, at height 61. -/
def block60 : Block := block 60 60 59 (coinbase 60 1 fee []) [spendId 9]
def block61 : Block := block 61 61 60 (coinbase 61 1 fee []) [spendId 8]

/-- Before the second spend. -/
def spentOnce : List Event := longLine ++
  [.incomingTx [9, 0, 1, 0] false, .newBlock block60, .incomingTx [8, 0, 2, 0] false]

end Devnet

/-- The first of the two spends is pushed and popped. -/
theorem push_pop_restores_ledger_iff_devnet :
    ∃ n', handleBlockToMainChain Devnet.env Devnet.now Devnet.block60
        (getBlockHash Devnet.env Devnet.block60) (Devnet.node ∅ Devnet.pooledLine) =
          .ok .added n' ∧
      ∃ n₂, PopRestoresLedger Devnet.env Devnet.now Devnet.block60
        (Devnet.node ∅ Devnet.pooledLine) n' n₂ := by
  have eval : (Devnet.run ∅ Devnet.pooledLine).isSome = true ∧
      isAdded (handleBlockToMainChain Devnet.env Devnet.now Devnet.block60
        (getBlockHash Devnet.env Devnet.block60) (Devnet.node ∅ Devnet.pooledLine)) = true ∧
      ((Devnet.node ∅ Devnet.pooledLine).pool.mTransactions[Devnet.spendId 9]?).map (·.tx) =
        some (Devnet.spend 9 0 1 0 []) ∧
      directTarget (Devnet.node ∅ Devnet.pooledLine).chain.mOutputs (.toKey Devnet.unit [0] 1) =
        some (⟨0, 0⟩, 0) ∧
      flagAt (Devnet.node ∅ Devnet.pooledLine).chain.mBlocks 0 0 0 = some false := by
    decide +kernel
  obtain ⟨hrun, hadd, htx, htarget, hflag⟩ := eval
  obtain ⟨txd, hm, htxd⟩ := Option.map_eq_some_iff.1 htx
  have hlisted : ∀ txd', ListedTx (Devnet.node ∅ Devnet.pooledLine) Devnet.block60 txd' →
      txd'.tx = Devnet.spend 9 0 1 0 [] := by
    rintro txd' ⟨id, hid, hm'⟩
    rw [List.mem_singleton.1 hid] at hm'
    cases hm.symm.trans hm'
    exact htxd
  refine ⟨_, eq_added hadd, (push_pop_restores_ledger_iff (Devnet.reachable_node ∅ _ hrun)
    (eq_added hadd) ⟨by decide, by decide, fun txd' h => ?_⟩ _).2 ?_⟩
  · rw [hlisted txd' h]
    decide
  · intro txd' h b t o hspends
    rw [hlisted txd' h] at hspends
    obtain ⟨i, hi, p, hp, rfl, rfl, rfl⟩ := hspends
    rw [List.mem_singleton.1 hi] at hp
    cases htarget.symm.trans hp
    intro hset
    have hset : flagAt (Devnet.node ∅ Devnet.pooledLine).chain.mBlocks 0 0 0 = some true := hset
    cases hflag.symm.trans hset

/-- The second of two direct spends of one output is pushed and popped: the
flag of the first is gone. -/
theorem push_pop_forgets_flag :
    ∃ n', Reachable Devnet.env (Devnet.node ∅ Devnet.spentOnce) ∧
      handleBlockToMainChain Devnet.env Devnet.now Devnet.block61
        (getBlockHash Devnet.env Devnet.block61) (Devnet.node ∅ Devnet.spentOnce) =
          .ok .added n' ∧
      FitsCounters (Devnet.node ∅ Devnet.spentOnce) Devnet.block61 ∧
      ¬ ∃ n₂, PopRestoresLedger Devnet.env Devnet.now Devnet.block61
        (Devnet.node ∅ Devnet.spentOnce) n' n₂ := by
  have eval : (Devnet.run ∅ Devnet.spentOnce).isSome = true ∧
      isAdded (handleBlockToMainChain Devnet.env Devnet.now Devnet.block61
        (getBlockHash Devnet.env Devnet.block61) (Devnet.node ∅ Devnet.spentOnce)) = true ∧
      ((Devnet.node ∅ Devnet.spentOnce).pool.mTransactions[Devnet.spendId 8]?).map (·.tx) =
        some (Devnet.spend 8 0 2 0 []) ∧
      directTarget (Devnet.node ∅ Devnet.spentOnce).chain.mOutputs (.toKey Devnet.unit [0] 2) =
        some (⟨0, 0⟩, 0) ∧
      flagAt (Devnet.node ∅ Devnet.spentOnce).chain.mBlocks 0 0 0 = some true := by
    decide +kernel
  obtain ⟨hrun, hadd, htx, htarget, hflag⟩ := eval
  obtain ⟨txd, hm, htxd⟩ := Option.map_eq_some_iff.1 htx
  have hlisted : ListedTx (Devnet.node ∅ Devnet.spentOnce) Devnet.block61 txd :=
    ⟨Devnet.spendId 8, List.mem_singleton_self _, hm⟩
  have hn := Devnet.reachable_node ∅ Devnet.spentOnce hrun
  have hfits : FitsCounters (Devnet.node ∅ Devnet.spentOnce) Devnet.block61 := by
    refine ⟨by decide, by decide, ?_⟩
    rintro txd' ⟨id, hid, hm'⟩
    rw [List.mem_singleton.1 hid] at hm'
    cases hm.symm.trans hm'
    rw [htxd]
    decide
  refine ⟨_, hn, eq_added hadd, hfits, ?_⟩
  rintro ⟨n₂, h⟩
  obtain ⟨hsound, hne⟩ := hn.sound (guaranteed_true Devnet.env)
  obtain ⟨c⟩ := handleBlockToMainChain_added (eq_added hadd)
  obtain ⟨n₃, hpop, hp⟩ := c.popBlock_of_sound Devnet.now hsound hne hfits
  cases eq_of_returns h.returns hpop
  refine hp.blocks_eq_iff.1 h.blocks txd hlisted 0 0 0 ?_ hflag
  rw [htxd]
  exact ⟨_, List.mem_singleton_self _, (⟨0, 0⟩, 0), htarget, rfl, rfl, rfl⟩

/-! ## The aliases -/

/-- Popping `n'` returns `true` and restores every alias history of `n`. -/
structure PopRestoresAliases (env : Env) (now : Nat) (n n' n₂ : Node) : Prop where
  returns : popBlockFromBlockchain env now n' = .ok true n₂
  histories : ∀ name, aliasHistory n₂.chain name = aliasHistory n.chain name
  infos : ∀ name, getAliasInfo n₂.chain name = getAliasInfo n.chain name

/-- The histories after push and pop: what the ordinary transactions put stays,
and the coinbase takes the last entry of its name. -/
theorem Connected.Popped.aliasHistory_eq {env : Env} {now : Nat} {bl : Block} {id : Hash}
    {n n' n₂ : Node} {c : Connected env now bl id n n'} (hp : c.Popped n₂) (name : Blob) :
    aliasHistory n₂.chain name =
      if aliasEntries env bl.minerTx.toTransactionPrefix name = [] then aliasHistory c.m.chain name
      else (aliasHistory c.m.chain name).dropLast := by
  have hal : aliasHistory n₂.chain name =
      aliasHistory (unaliased env bl.minerTx c.m.chain) name := by
    unfold aliasHistory
    rw [hp.aliases]
  rw [hal]
  unfold unaliased aliasEntries
  rw [if_pos c.isCoinbase_minerTx]
  cases hai : txAlias env bl.minerTx.toTransactionPrefix with
  | none => simp
  | some ai =>
    have hne : ai.mAlias ≠ [] := txAlias_ne_nil hai
    have hh : aliasHistory c.m.chain ai.mAlias ≠ [] := by
      rw [c.aliasHistory_eq, aliasEntries, hai]
      simp
    simp only [Option.elim_some]
    rw [(aliasHistory_popAliasInfo hne hh name).2]
    split <;> simp

/-- None of the block's transactions, the coinbase apart, carries an alias. -/
def NoOrdinaryAlias (env : Env) (n : Node) (bl : Block) : Prop :=
  ∀ txd, ListedTx n bl txd → txAlias env txd.tx.toTransactionPrefix = none

theorem aliasEntries_eq_nil_or_singleton (env : Env) (tx : TransactionPrefix) (name : Blob) :
    aliasEntries env tx name = [] ∨ ∃ a, aliasEntries env tx name = [a] := by
  unfold aliasEntries
  split
  · split
    · exact .inr ⟨_, rfl⟩
    · exact .inl rfl
  · exact .inl rfl

/-- The histories come back exactly when only the coinbase has an alias. -/
theorem Connected.Popped.histories_eq_iff {env : Env} {now : Nat} {bl : Block} {id : Hash}
    {n n' n₂ : Node} {c : Connected env now bl id n n'} (hp : c.Popped n₂) :
    (∀ name, aliasHistory n₂.chain name = aliasHistory n.chain name) ↔
      NoOrdinaryAlias env n bl := by
  unfold NoOrdinaryAlias
  rw [← c.forall_ordinary_iff fun p => txAlias env p = none]
  constructor
  · intro h tx htx
    -- an entry the pop leaves makes the history of its name too long
    by_contra hsome
    obtain ⟨ai, hai⟩ := Option.ne_none_iff_exists'.1 hsome
    have hlen := congrArg List.length (h ai.mAlias)
    have hown : 1 ≤ (c.ordinaryTxs.flatMap fun tx =>
        aliasEntries env tx.toTransactionPrefix ai.mAlias).length := by
      rw [Nat.one_le_iff_ne_zero, Ne, List.length_eq_zero_iff, List.flatMap_eq_nil_iff]
      intro hnil
      have := hnil tx htx
      simp [aliasEntries, hai] at this
    rw [hp.aliasHistory_eq, c.aliasHistory_eq] at hlen
    split at hlen
    · next hcb =>
      rw [hcb, List.append_nil, List.length_append] at hlen
      omega
    · next hcb =>
      have hcb' := List.length_pos_iff.2 hcb
      rw [List.length_dropLast, List.length_append, List.length_append] at hlen
      omega
  · intro h name
    have hflat : (c.ordinaryTxs.flatMap fun tx =>
        aliasEntries env tx.toTransactionPrefix name) = [] := by
      rw [List.flatMap_eq_nil_iff]
      intro tx htx
      rw [aliasEntries, h tx htx]
    rw [hp.aliasHistory_eq, c.aliasHistory_eq, hflat, List.append_nil]
    rcases aliasEntries_eq_nil_or_singleton env bl.minerTx.toTransactionPrefix name with hnil | ⟨a, ha⟩
    · rw [if_pos hnil, hnil, List.append_nil]
    · rw [if_neg (by rw [ha]; simp), ha, List.dropLast_concat]

/-- **A pop undoes the alias operations of a push** exactly when only the
coinbase had one. -/
theorem push_pop_restores_aliases_iff {env : Env} {now : Nat} {bl : Block} {n n' : Node}
    (hn : Reachable env n)
    (hpush : handleBlockToMainChain env now bl (getBlockHash env bl) n = .ok .added n')
    (hfits : FitsCounters n bl) (now' : Nat) :
    (∃ n₂, PopRestoresAliases env now' n n' n₂) ↔ NoOrdinaryAlias env n bl := by
  obtain ⟨hsound, hne⟩ := hn.sound (guaranteed_true env)
  obtain ⟨c⟩ := handleBlockToMainChain_added hpush
  obtain ⟨n₂, hpop, hp⟩ := c.popBlock_of_sound now' hsound hne hfits
  constructor
  · rintro ⟨n₃, h⟩
    cases eq_of_returns h.returns hpop
    exact hp.histories_eq_iff.1 h.histories
  · intro h
    have hhist := hp.histories_eq_iff.2 h
    refine ⟨n₂, hpop, hhist, fun name => ?_⟩
    rw [getAliasInfo_eq, getAliasInfo_eq, hhist]

namespace Devnet

/-- An extra field with a transaction key and the alias "a". -/
def aliasExtra : Blob :=
  [1] ++ List.replicate 32 1 ++ [3, 0, 1, 97] ++ List.replicate 64 2 ++ [0]

/-- A coinbase that registers the alias, on top of genesis. -/
def blockOfAlias : Block := block 1 1 0 (coinbase 1 1 0 aliasExtra) []

/-- An ordinary transaction that registers the alias, at height 60. -/
def blockOfAliasTx : Block := block 60 60 59 (coinbase 60 1 fee []) [spendId 9]
def aliasTx : List Event := longLine ++ [.incomingTx ([9, 0, 1, 0] ++ aliasExtra) false]

end Devnet

/-- The coinbase's alias comes off with its block. -/
theorem push_pop_restores_aliases_iff_coinbase :
    ∃ n', handleBlockToMainChain Devnet.env Devnet.now Devnet.blockOfAlias
        (getBlockHash Devnet.env Devnet.blockOfAlias) (Devnet.node ∅ []) = .ok .added n' ∧
      getAliasInfo n'.chain [97] ≠ none ∧
      ∃ n₂, PopRestoresAliases Devnet.env Devnet.now (Devnet.node ∅ []) n' n₂ := by
  have eval : isAdded (handleBlockToMainChain Devnet.env Devnet.now Devnet.blockOfAlias
        (getBlockHash Devnet.env Devnet.blockOfAlias) (Devnet.node ∅ [])) = true ∧
      getAliasInfo (stateOf (handleBlockToMainChain Devnet.env Devnet.now Devnet.blockOfAlias
        (getBlockHash Devnet.env Devnet.blockOfAlias) (Devnet.node ∅ []))).chain [97] ≠ none := by
    decide +kernel
  have hlisted : ∀ txd, ¬ ListedTx (Devnet.node ∅ []) Devnet.blockOfAlias txd := by
    rintro txd ⟨id, hid, -⟩
    exact absurd hid List.not_mem_nil
  refine ⟨_, eq_added eval.1, eval.2, (push_pop_restores_aliases_iff
    (Devnet.reachable_node ∅ [] (by decide +kernel)) (eq_added eval.1)
    ⟨by decide, by decide, fun txd h => absurd h (hlisted txd)⟩ _).2 ?_⟩
  exact fun txd h => absurd h (hlisted txd)

/-- An ordinary transaction's alias stays when its block is popped. -/
theorem push_pop_keeps_alias :
    ∃ n', Reachable Devnet.env (Devnet.node ∅ Devnet.aliasTx) ∧
      handleBlockToMainChain Devnet.env Devnet.now Devnet.blockOfAliasTx
        (getBlockHash Devnet.env Devnet.blockOfAliasTx) (Devnet.node ∅ Devnet.aliasTx) =
          .ok .added n' ∧
      ¬ ∃ n₂, PopRestoresAliases Devnet.env Devnet.now (Devnet.node ∅ Devnet.aliasTx) n' n₂ := by
  have eval : (Devnet.run ∅ Devnet.aliasTx).isSome = true ∧
      isAdded (handleBlockToMainChain Devnet.env Devnet.now Devnet.blockOfAliasTx
        (getBlockHash Devnet.env Devnet.blockOfAliasTx) (Devnet.node ∅ Devnet.aliasTx)) = true ∧
      ((Devnet.node ∅ Devnet.aliasTx).pool.mTransactions[Devnet.spendId 9]?).map (·.tx) =
        some (Devnet.spend 9 0 1 0 Devnet.aliasExtra) ∧
      txAlias Devnet.env (Devnet.spend 9 0 1 0 Devnet.aliasExtra).toTransactionPrefix ≠ none := by
    decide +kernel
  obtain ⟨hrun, hadd, htx, halias⟩ := eval
  obtain ⟨txd, hm, htxd⟩ := Option.map_eq_some_iff.1 htx
  have hn := Devnet.reachable_node ∅ Devnet.aliasTx hrun
  refine ⟨_, hn, eq_added hadd, ?_⟩
  rintro ⟨n₂, h⟩
  obtain ⟨hsound, hne⟩ := hn.sound (guaranteed_true Devnet.env)
  obtain ⟨c⟩ := handleBlockToMainChain_added (eq_added hadd)
  obtain ⟨n₃, hpop, hp⟩ := c.popBlock_of_sound Devnet.now hsound hne (by
    refine ⟨by decide, by decide, ?_⟩
    rintro txd' ⟨id, hid, hm'⟩
    rw [List.mem_singleton.1 hid] at hm'
    cases hm.symm.trans hm'
    rw [htxd]
    decide)
  cases eq_of_returns h.returns hpop
  refine halias ?_
  rw [← htxd]
  exact hp.histories_eq_iff.1 h.histories txd ⟨Devnet.spendId 9, List.mem_singleton_self _, hm⟩

end DarknetSpace
