import DarknetSpace.Chain.Unwind
import DarknetSpace.Core.Sound

/-!
# The incremental indexes and the rebuilt ones

Two implementations write the indexes: `handle_block_to_main_chain`, one block
at a time with the pool in the middle, and `rebuildcache`, in one pass over
`m_blocks`. On a chain that grew by pushes alone they agree: rebuilding from
any height on, over the indexes the chain had at that height, gives the
indexes it has now.

The step lemma is about one block (`Connected.rebuildBlock`), and goes transaction by
transaction through both. That a rebuild counts in 16 bits is where the two could part;
blocks that a push has added have counts that fit wherever their positions do
(`FitsRebuild`).

Main result: `incremental_indexes_eq_rebuild`, by induction over the pushes.
-/

namespace DarknetSpace

open StateExn

/-- The indexes a transaction writes agree. -/
structure SameCaches (s d : Storage) : Prop where
  transactions : d.mTransactions = s.mTransactions
  spentKeys : d.mSpentKeys = s.mSpentKeys
  outputs : d.mOutputs = s.mOutputs
  aliases : d.mAliases = s.mAliases

/-- The indexes of the main chain agree. -/
structure SameIndexes (s d : Storage) : Prop extends SameCaches s d where
  blocksIndex : d.mBlocksIndex = s.mBlocksIndex
  scratchpad : d.mScratchpad = s.mScratchpad

/-- The indexes a block writes beside its transactions'. -/
def SameBlockCaches (s d : Storage) : Prop :=
  d.mBlocksIndex = s.mBlocksIndex ∧ d.mScratchpad = s.mScratchpad

/-! ## One transaction -/

/-- Whether an alias is accepted, and the history it leaves, is up to the
histories: `m_addr_to_alias` is only written. -/
theorem putAliasInfo_congr (env : Env) (ai : AliasInfo) {s d : Storage}
    (ha : d.mAliases = s.mAliases) :
    (putAliasInfo env ai d).1 = (putAliasInfo env ai s).1 ∧
      (putAliasInfo env ai d).2.mAliases = (putAliasInfo env ai s).2.mAliases := by
  simp only [putAliasInfo, aliasHistory, Storage.setHistory, ha]
  split
  · exact ⟨rfl, ha⟩
  · split
    · split <;> exact ⟨rfl, rfl⟩
    · split
      · exact ⟨rfl, rfl⟩
      · split <;> exact ⟨rfl, rfl⟩

theorem processBlockchainTxExtra_congr {env : Env} {tx : Transaction} {s sa d : Storage} {r : Bool}
    (ha : d.mAliases = s.mAliases) (hp : processBlockchainTxExtra env tx s = .ok r sa) :
    ∃ da, processBlockchainTxExtra env tx d = .ok r da ∧ da.mAliases = sa.mAliases ∧
      da.withoutAliases = d.withoutAliases ∧ sa.withoutAliases = s.withoutAliases := by
  unfold processBlockchainTxExtra at hp ⊢
  split at hp
  · cases hp
  · cases hp
    exact ⟨d, rfl, ha, rfl, rfl⟩
  · next ei _ =>
    split at hp
    · next hnone =>
      cases hp
      exact ⟨d, if_pos hnone, ha, rfl, rfl⟩
    · next hsome =>
      cases hp
      obtain ⟨hr, hal⟩ := putAliasInfo_congr env ei.mAlias ha
      exact ⟨_, by rw [if_neg hsome, hr], hal, putAliasInfo_withoutAliases env _ d,
        putAliasInfo_withoutAliases env _ s⟩

/-- An alias that was accepted is accepted wherever the histories are the
same. -/
theorem SameCaches.process {env : Env} {tx : Transaction} {s sa d : Storage}
    (h : SameCaches s d) (hp : processBlockchainTxExtra env tx s = .ok true sa) :
    ∃ da, processBlockchainTxExtra env tx d = .ok true da ∧ SameCaches sa da ∧
      da.withoutAliases = d.withoutAliases := by
  obtain ⟨da, hda, hal, hd, hs⟩ := processBlockchainTxExtra_congr h.aliases hp
  refine ⟨da, hda, ?_, hd⟩
  have field {α : Type} (f : Storage → α) (hf : f d.withoutAliases = f s.withoutAliases) :
      f da.withoutAliases = f sa.withoutAliases := by rw [hs, hd, hf]
  exact
    { transactions := field (·.mTransactions) h.transactions
      spentKeys := field (·.mSpentKeys) h.spentKeys
      outputs := field (·.mOutputs) h.outputs
      aliases := hal }

/-- The rebuild of one transaction does what its recording did. -/
theorem SameCaches.rebuildTransaction {env : Env} {tx : Transaction} {b t : Nat}
    {s sa s' d : Storage} {txe : TransactionEntry} (h : SameCaches s d)
    (hr : TxRecorded env tx (getTransactionHash env tx) ⟨b, UInt16.ofNat t⟩ s sa s' txe)
    (hlen : tx.vout.length < 65536) :
    ∃ d', rebuildTransaction env b t tx d = .ok true d' ∧ SameCaches s' d' ∧
      SameBlockCaches d d' := by
  obtain ⟨da, hp, ha, hda⟩ := h.process hr.extra
  have hfresh : da.mTransactions[getTransactionHash env tx]? = none := by
    have hsa : sa.mTransactions = s.mTransactions := by
      have := congrArg Storage.mTransactions (processBlockchainTxExtra_frame hr.extra); exact this
    rw [ha.transactions, hsa]
    exact hr.fresh
  refine ⟨{ da with
    mTransactions := da.mTransactions.insertIfNew (getTransactionHash env tx)
      ⟨b, UInt16.ofNat t⟩
    mSpentKeys := da.mSpentKeys.insertMany (keyImages tx.vin)
    mOutputs := (pushOutputs ⟨b, UInt16.ofNat t⟩ 0 tx.vout da.mOutputs).1 }, ?_, ?_, ?_⟩
  · unfold DarknetSpace.rebuildTransaction
    rw [bind_of_ok hp, if_pos rfl, if_neg (by omega)]
    rw [bind_of_ok (modify_apply _ da)]
    rfl
  · rw [hr.state]
    refine ⟨?_, ?_, ?_, ha.aliases⟩
    · show da.mTransactions.insertIfNew _ _ = sa.mTransactions.insert _ _
      rw [FinMap.insertIfNew_eq_insert _ hfresh, ha.transactions]
    · show da.mSpentKeys.insertMany _ = sa.mSpentKeys.insertMany _
      rw [ha.spentKeys]
    · show (pushOutputs _ 0 tx.vout da.mOutputs).1 = (pushOutputs _ 0 tx.vout sa.mOutputs).1
      rw [ha.outputs]
  · have hi := congrArg Storage.mBlocksIndex hda
    have hp := congrArg Storage.mScratchpad hda
    exact ⟨hi, hp⟩

/-! ## One block -/

/-- The bounds below which the 16-bit counters of `rebuildcache` do not wrap. -/
def FitsRebuild (e : BlockEntry) : Prop :=
  e.transactions.length < 65536 ∧ ∀ t ∈ e.transactions, t.tx.vout.length < 65536

theorem fitsRebuild_forgetFlags {e : BlockEntry} : FitsRebuild e.forgetFlags ↔ FitsRebuild e := by
  unfold FitsRebuild BlockEntry.forgetFlags
  simp only [List.length_map]
  refine and_congr_right fun _ => ⟨fun h t ht => ?_, fun h t ht => ?_⟩
  · exact h t.forgetFlags (List.mem_map_of_mem ht)
  · obtain ⟨t', ht', rfl⟩ := List.mem_map.1 ht
    exact h t' ht'

theorem fitsRebuild_congr {bs bs' : List BlockEntry} (h : forgetFlags bs' = forgetFlags bs)
    (hb : ∀ e ∈ bs, FitsRebuild e) : ∀ e ∈ bs', FitsRebuild e := by
  intro e he
  have hmem : e.forgetFlags ∈ forgetFlags bs := by
    rw [← h]
    exact List.mem_map_of_mem he
  obtain ⟨e₀, he₀, heq⟩ := List.mem_map.1 hmem
  rw [← fitsRebuild_forgetFlags, ← heq, fitsRebuild_forgetFlags]
  exact hb e₀ he₀

/-- The rebuild of the ordinary transactions of a block. -/
theorem SameCaches.rebuildTransactions {env : Env} {now k : Nat} {ids : List Hash} {n n' : Node}
    {taken : List TakenTx} (h : TxsTaken env now k ids n taken n') {d : Storage} {b : Nat}
    (hs : SameCaches n.chain d) (hb : n.chain.mBlocks.length = b)
    (hids : ids = taken.map fun t => getTransactionHash env t.entry.tx)
    (hlen : k + 1 + taken.length < 65536)
    (houts : ∀ t ∈ taken, t.entry.tx.vout.length < 65536) :
    ∃ d', rebuildTransactions env b (k + 1) (taken.map (·.entry)) d = .ok ⟨⟩ d' ∧
      SameCaches n'.chain d' ∧ SameBlockCaches d d' := by
  induction h generalizing d with
  | nil =>
    refine ⟨d, ?_, hs, rfl, rfl⟩
    show (if 65535 < _ then throw .endless else pure ⟨⟩ : StorageM PUnit) d = _
    rw [if_neg (by simp only [List.length_nil] at hlen; omega)]
    rfl
  | @cons k txId rest n n' txd pool used sa s' entry taken _ _ hr _ ih =>
    rw [List.map_cons, List.cons.injEq] at hids
    rw [List.length_cons] at hlen
    have htx : entry.tx = prunedTx n.chain.mIsInCheckpointZone txd.tx := by rw [hr.entry]; rfl
    have hr' : TxRecorded env entry.tx (getTransactionHash env entry.tx)
        ⟨b, UInt16.ofNat (k + 1)⟩ n.chain sa s' entry := by
      rw [← hb, ← hids.1, htx]
      exact hr
    obtain ⟨d₁, hd₁, hs₁, hk₁⟩ := hs.rebuildTransaction hr' (houts _ List.mem_cons_self)
    have hlen' : s'.mBlocks.length = n.chain.mBlocks.length := Storage.length_of_frame hr.frame
    obtain ⟨d', hd', hs', hk'⟩ := ih hs₁ (hlen'.trans hb) hids.2 (by omega)
      fun t ht => houts t (List.mem_cons_of_mem _ ht)
    refine ⟨d', ?_, hs', hk'.1.trans hk₁.1, hk'.2.trans hk₁.2⟩
    show (if 65535 < k + 1 then throw .endless else _ : StorageM PUnit) d = _
    rw [if_neg (by omega), bind_of_ok hd₁]
    exact hd'

/-- **One block.** The rebuild of an added block, over the indexes the chain had
before it, gives the indexes it had after it. -/
theorem Connected.rebuildBlock {env : Env} {G : TransactionPrefix → Prop} {now : Nat} {bl : Block}
    {n n' : Node} (c : Connected env now bl (getBlockHash env bl) n n') (hn : Sound env G n)
    (hfits : FitsRebuild c.entry) {d : Storage} (hs : SameIndexes n.chain d) :
    ∃ d', rebuildBlock env n.chain.mBlocks.length c.entry d = .ok ⟨⟩ d' ∧
      SameIndexes n'.chain d' := by
  obtain ⟨hcount, houts⟩ := hfits
  rw [c.entry_transactions, List.length_cons, List.length_map] at hcount
  -- the block's id is new to the index
  have hindex : (indexPush d.mBlocksIndex (getBlockHash env c.entry.bl)).2 =
      n.chain.mBlocksIndex ++ [getBlockHash env bl] := by
    have hfresh : getBlockHash env bl ∉ n.chain.mBlocksIndex := c.index ▸ c.fresh
    unfold indexPush
    rw [hs.blocksIndex]
    exact congrArg Prod.snd (if_neg hfresh)
  generalize hd₀ : ({ d with
    mBlocksIndex := (indexPush d.mBlocksIndex (getBlockHash env c.entry.bl)).2 } : Storage) = d₀
  have hs₀ : SameCaches (n.chain.setCheckpointZone n.chain.mBlocks.length) d₀ := by
    rw [← hd₀]
    exact ⟨hs.transactions, hs.spentKeys, hs.outputs, hs.aliases⟩
  -- the coinbase, then the other transactions
  obtain ⟨d₁, hd₁, hs₁, hk₁⟩ := hs₀.rebuildTransaction c.coinbase_recorded
    (houts c.coinbase (by rw [c.entry_transactions]; exact List.mem_cons_self))
  have hlen₁ : c.s₁.mBlocks.length = n.chain.mBlocks.length := by rw [c.coinbase_blocks]
  obtain ⟨d₂, hd₂, hs₂, hk₂⟩ := hs₁.rebuildTransactions c.txs hlen₁ (c.txs.pool hn.pool).2.1
    (by omega) (fun t ht => houts t.entry (by
      rw [c.entry_transactions]
      exact List.mem_cons_of_mem _ (List.mem_map_of_mem ht)))
  have htxs : rebuildTransactions env n.chain.mBlocks.length 0 c.entry.transactions d₀ =
      .ok ⟨⟩ d₂ := by
    rw [c.entry_transactions]
    show (if 65535 < 0 then throw .endless else _ : StorageM PUnit) d₀ = _
    rw [if_neg (by omega), bind_of_ok hd₁]
    exact hd₂
  -- the scratchpad
  have hpad : pushBlockScratchpadData env c.entry.bl d₂.mScratchpad = .ok c.pad := by
    have hold : c.m.chain.mScratchpad = n.chain.mScratchpad := by
      have := congrArg Storage.mScratchpad c.frame
      exact this
    rw [hk₂.2, hk₁.2, ← hd₀, hs.scratchpad, ← hold]
    exact c.scratchpad
  refine ⟨{ d₂ with mScratchpad := c.pad }, ?_, ?_⟩
  · unfold DarknetSpace.rebuildBlock
    rw [bind_of_ok (modify_apply _ d), hd₀, bind_of_ok htxs]
    exact appendScratchpad_of_ok hpad
  · rw [c.chain_eq hn.sync]
    refine ⟨⟨hs₂.transactions, hs₂.spentKeys, hs₂.outputs, hs₂.aliases⟩, ?_, rfl⟩
    show d₂.mBlocksIndex = _
    rw [hk₂.1, hk₁.1, ← hd₀]
    exact hindex

/-! ## The whole chain -/

/-- What a rebuild reads of a block. -/
def BlockEntry.content (e : BlockEntry) : Block × List TransactionPrefix :=
  (e.bl, e.transactions.map (·.tx.toTransactionPrefix))

theorem rebuildTransactions_congr (env : Env) (b t : Nat) {es es' : List TransactionEntry}
    (h : es'.map (·.tx.toTransactionPrefix) = es.map (·.tx.toTransactionPrefix)) :
    rebuildTransactions env b t es' = rebuildTransactions env b t es := by
  induction es generalizing t es' with
  | nil =>
    rw [List.map_nil, List.map_eq_nil_iff] at h
    rw [h]
  | cons e rest ih =>
    cases es' with
    | nil => cases h
    | cons e' rest' =>
      rw [List.map_cons, List.map_cons, List.cons.injEq] at h
      have he : rebuildTransaction env b t e'.tx = rebuildTransaction env b t e.tx := by
        unfold rebuildTransaction processBlockchainTxExtra getTransactionHash
        rw [h.1]
      unfold rebuildTransactions
      rw [he, ih _ h.2]

/-- A rebuild does not look at flags or signatures. -/
theorem rebuildBlocks_congr (env : Env) (b : Nat) {bs bs' : List BlockEntry}
    (h : bs'.map BlockEntry.content = bs.map BlockEntry.content) :
    rebuildBlocks env b bs' = rebuildBlocks env b bs := by
  induction bs generalizing b bs' with
  | nil =>
    rw [List.map_nil, List.map_eq_nil_iff] at h
    rw [h]
  | cons e rest ih =>
    cases bs' with
    | nil => cases h
    | cons e' rest' =>
      rw [List.map_cons, List.map_cons, List.cons.injEq] at h
      obtain ⟨hbl, htxs⟩ := Prod.mk.inj h.1
      have he : rebuildBlock env b e' = rebuildBlock env b e := by
        unfold rebuildBlock
        rw [hbl, rebuildTransactions_congr env b 0 htxs]
      unfold rebuildBlocks
      rw [he, ih _ h.2]

theorem content_of_forgetFlags {bs bs' : List BlockEntry} (h : forgetFlags bs' = forgetFlags bs) :
    bs'.map BlockEntry.content = bs.map BlockEntry.content := by
  have hc : ∀ e : BlockEntry, e.forgetFlags.content = e.content := by
    intro e
    unfold BlockEntry.content BlockEntry.forgetFlags
    rw [List.map_map]
    rfl
  have := congrArg (List.map BlockEntry.content) h
  rw [forgetFlags, forgetFlags, List.map_map, List.map_map] at this
  have hcomp : BlockEntry.content ∘ BlockEntry.forgetFlags = BlockEntry.content := funext hc
  rwa [hcomp] at this

theorem rebuildBlocks_append (env : Env) (b : Nat) (xs ys : List BlockEntry) :
    rebuildBlocks env b (xs ++ ys) =
      (do rebuildBlocks env b xs; rebuildBlocks env (b + xs.length) ys) := by
  induction xs generalizing b with
  | nil => rfl
  | cons x rest ih =>
    rw [List.length_cons, Nat.add_comm rest.length, ← Nat.add_assoc]
    show (do rebuildBlock env b x; rebuildBlocks env (b + 1) (rest ++ ys)) =
      (do (do rebuildBlock env b x; rebuildBlocks env (b + 1) rest)
          rebuildBlocks env (b + 1 + rest.length) ys)
    rw [ih, bind_assoc]

/-- `n'` is reached from `n` by incoming transactions and added blocks. -/
inductive PushesTo (env : Env) (n : Node) : Node → Prop where
  | refl : PushesTo env n n
  | incomingTx {m m' : Node} {now : Nat} {blob : Blob} {kept : Bool} (h : PushesTo env n m)
      (ends : EndsIn (handleIncomingTx env now blob kept m) m') : PushesTo env n m'
  | push {m m' : Node} {now : Nat} {bl : Block} (h : PushesTo env n m)
      (added : handleBlockToMainChain env now bl (getBlockHash env bl) m = .ok .added m') :
      PushesTo env n m'

/-- What an incoming transaction leaves as it is. -/
theorem EndsIn.poolOnly {env : Env} {now : Nat} {blob : Blob} {kept : Bool} {m m' : Node}
    (h : EndsIn (handleIncomingTx env now blob kept m) m') (hm : Sound env (fun _ => True) m) :
    m'.chain = m.chain ∧ Sound env (fun _ => True) m' := by
  obtain ⟨pool, hstate, hpool⟩ :=
    handleIncomingTx_poolOnly ((guaranteed_true env).admitted blob) now kept hm.pool
  have hm' : m' = stateOf (handleIncomingTx env now blob kept m) := by
    rcases h with ⟨a, h⟩ | h
    · rw [h, stateOf_ok]
    · rw [h, stateOf_error]
  rw [hm', hstate]
  exact ⟨rfl, hm.index, hm.outputs, hm.txs, hpool⟩

/-- The blocks after a push. -/
theorem Connected.blocks_eq {env : Env} {G : TransactionPrefix → Prop} {now : Nat} {bl : Block}
    {id : Hash} {n n' : Node} (c : Connected env now bl id n n') (hn : Sound env G n) :
    forgetFlags n'.chain.mBlocks = forgetFlags (n.chain.mBlocks ++ [c.entry]) := by
  have hb : n'.chain.mBlocks = c.m.chain.mBlocks ++ [c.entry] := by rw [c.chain_eq hn.sync]; rfl
  rw [hb, forgetFlags_append, forgetFlags_append, c.flagsSet.blocks]

/-- A chain that grew by pushes is sound. -/
theorem PushesTo.sound {env : Env} {n n' : Node} (h : PushesTo env n n')
    (hn : Sound env (fun _ => True) n) : Sound env (fun _ => True) n' := by
  induction h with
  | refl => exact hn
  | incomingTx _ ends ih => exact (ends.poolOnly ih).2
  | push _ added ih =>
    obtain ⟨c⟩ := handleBlockToMainChain_added added
    exact c.sound ih

/-- Pushes only append blocks, up to flags. -/
theorem PushesTo.blocks_isPrefix {env : Env} {n n' : Node} (h : PushesTo env n n')
    (hn : Sound env (fun _ => True) n) :
    forgetFlags n.chain.mBlocks <+: forgetFlags n'.chain.mBlocks := by
  induction h with
  | refl => exact List.prefix_rfl
  | incomingTx h ends ih =>
    rw [(ends.poolOnly (h.sound hn)).1]
    exact ih
  | push h added ih =>
    obtain ⟨c⟩ := handleBlockToMainChain_added added
    rw [c.blocks_eq (h.sound hn), forgetFlags_append]
    exact ih.trans (List.prefix_append _ _)

theorem PushesTo.length_le {env : Env} {n n' : Node} (h : PushesTo env n n')
    (hn : Sound env (fun _ => True) n) :
    n.chain.mBlocks.length ≤ n'.chain.mBlocks.length := by
  have := (h.blocks_isPrefix hn).length_le
  rwa [length_forgetFlags, length_forgetFlags] at this

/-- Along pushes, rebuilding over the indexes of the start gives the indexes of
the end. -/
theorem PushesTo.rebuildBlocks {env : Env} {n n' : Node} (h : PushesTo env n n')
    (hn : Sound env (fun _ => True) n) (hfits : ∀ e ∈ n'.chain.mBlocks, FitsRebuild e)
    {d : Storage} (hd : SameIndexes n.chain d) :
    ∃ d', DarknetSpace.rebuildBlocks env n.chain.mBlocks.length
        (n'.chain.mBlocks.drop n.chain.mBlocks.length) d = .ok ⟨⟩ d' ∧
      SameIndexes n'.chain d' := by
  induction h with
  | refl =>
    refine ⟨d, ?_, hd⟩
    rw [List.drop_length]
    rfl
  | incomingTx h ends ih =>
    rw [(ends.poolOnly (h.sound hn)).1] at hfits ⊢
    exact ih hfits
  | @push m m' _ bl h added ih =>
    obtain ⟨c⟩ := handleBlockToMainChain_added added
    have hm := h.sound hn
    have hblocks := c.blocks_eq hm
    have hle := h.length_le hn
    have hall : ∀ e ∈ m.chain.mBlocks ++ [c.entry], FitsRebuild e :=
      fitsRebuild_congr hblocks.symm hfits
    obtain ⟨d₁, hd₁, hs₁⟩ := ih fun e he => hall e (List.mem_append_left _ he)
    obtain ⟨d₂, hd₂, hs₂⟩ := c.rebuildBlock hm (hall _ (by simp)) hs₁
    refine ⟨d₂, ?_, hs₂⟩
    -- the rebuild runs over the old blocks, then over the new one
    have hdrop : (m'.chain.mBlocks.drop n.chain.mBlocks.length).map BlockEntry.content =
        (m.chain.mBlocks.drop n.chain.mBlocks.length ++ [c.entry]).map BlockEntry.content := by
      rw [List.map_drop, content_of_forgetFlags hblocks, ← List.map_drop,
        List.drop_append_of_le_length hle]
    rw [rebuildBlocks_congr env _ hdrop, rebuildBlocks_append, List.length_drop,
      Nat.add_sub_cancel' hle]
    exact (bind_of_ok hd₁).trans (bind_of_ok hd₂)

/-- Every height of the chain was its height once. -/
theorem PushesTo.through_height {env : Env} {n n' : Node} (h : PushesTo env n n')
    (hn : Sound env (fun _ => True) n) {k : Nat} (hk : n.chain.mBlocks.length ≤ k)
    (hk' : k ≤ n'.chain.mBlocks.length) :
    ∃ m, PushesTo env n m ∧ PushesTo env m n' ∧ m.chain.mBlocks.length = k := by
  induction h with
  | refl => exact ⟨n, .refl, .refl, by omega⟩
  | incomingTx h ends ih =>
    rw [(ends.poolOnly (h.sound hn)).1] at hk'
    obtain ⟨m, h₁, h₂, hm⟩ := ih hk'
    exact ⟨m, h₁, h₂.incomingTx ends, hm⟩
  | @push m m' _ _ h added ih =>
    obtain ⟨c⟩ := handleBlockToMainChain_added added
    have hlen : m'.chain.mBlocks.length = m.chain.mBlocks.length + 1 := by
      have := length_eq_of_forgetFlags (c.blocks_eq (h.sound hn))
      rwa [List.length_append, List.length_singleton] at this
    by_cases hlast : k = m'.chain.mBlocks.length
    · exact ⟨m', h.push added, .refl, hlast.symm⟩
    · obtain ⟨m₁, h₁, h₂, hm₁⟩ := ih (by omega)
      exact ⟨m₁, h₁, h₂.push added, hm₁⟩

/-- `rebuildcache` over the blocks of `n`, from the indexes of an earlier node. -/
theorem PushesTo.rebuildcache {env : Env} {n n' : Node} (h : PushesTo env n n')
    (hn : Sound env (fun _ => True) n) (hfits : ∀ e ∈ n'.chain.mBlocks, FitsRebuild e)
    {d : Storage} (hblocks : d.mBlocks = n'.chain.mBlocks) (hd : SameIndexes n.chain d) :
    ∃ s, DarknetSpace.rebuildcache env n.chain.mBlocks.length d = .ok true s ∧
      SameIndexes n'.chain s := by
  obtain ⟨s, hs, hsame⟩ := h.rebuildBlocks hn hfits hd
  refine ⟨s, ?_, hsame⟩
  unfold DarknetSpace.rebuildcache
  rw [bind_of_ok (get_apply d), hblocks]
  exact (bind_of_ok hs).trans rfl

theorem sameIndexes_initial (cp : Checkpoints) (d : Storage) :
    SameIndexes (Node.initial cp).chain d.clearAllCacheData :=
  ⟨⟨rfl, rfl, rfl, rfl⟩, rfl, rfl⟩

/-- **The incremental indexes equal a rebuild.** For a chain grown from nothing
by pushes, `rebuildcache(0)` over cleared caches gives the indexes of the chain;
the chain had every smaller height `k` once, and from the indexes it had there
`rebuildcache(k)` gives the indexes of the whole chain. -/
theorem incremental_indexes_eq_rebuild {env : Env} {cp : Checkpoints} {n : Node}
    (h : PushesTo env (Node.initial cp) n) (hfits : ∀ e ∈ n.chain.mBlocks, FitsRebuild e) :
    (∃ s, rebuildcache env 0 n.chain.clearAllCacheData = .ok true s ∧ SameIndexes n.chain s) ∧
      (∀ k ≤ n.chain.mBlocks.length, ∃ m, PushesTo env (Node.initial cp) m ∧ PushesTo env m n ∧
        m.chain.mBlocks.length = k) ∧
      ∀ m, PushesTo env (Node.initial cp) m → PushesTo env m n →
        ∀ d : Storage, d.mBlocks = n.chain.mBlocks → SameIndexes m.chain d →
          ∃ s, rebuildcache env m.chain.mBlocks.length d = .ok true s ∧ SameIndexes n.chain s := by
  have hn : Sound env (fun _ => True) (Node.initial cp) := Sound.initial env _ cp
  refine ⟨?_, fun k hk => ?_, fun m hm hmn d hblocks hd => ?_⟩
  · exact h.rebuildcache hn hfits rfl (sameIndexes_initial cp n.chain)
  · exact h.through_height hn (Nat.zero_le k) hk
  · exact hmn.rebuildcache (hm.sound hn) hfits hblocks hd

/-- The genesis block and the block on top of it. -/
theorem incremental_indexes_eq_rebuild_devnet :
    ∃ n, PushesTo Devnet.env (Node.initial ∅) n ∧ n.chain.mBlocks.length = 2 ∧
      ∃ s, rebuildcache Devnet.env 0 n.chain.clearAllCacheData = .ok true s ∧
        SameIndexes n.chain s := by
  have eval :
      let r₀ := handleBlockToMainChain Devnet.env Devnet.now Devnet.genesis
        (getBlockHash Devnet.env Devnet.genesis) (Node.initial ∅)
      let r₁ := handleBlockToMainChain Devnet.env Devnet.now (Devnet.mainBlock 1)
        (getBlockHash Devnet.env (Devnet.mainBlock 1)) (stateOf r₀)
      isAdded r₀ = true ∧ isAdded r₁ = true ∧ (stateOf r₁).chain.mBlocks.length = 2 ∧
        ∀ e ∈ (stateOf r₁).chain.mBlocks, e.transactions.length < 65536 ∧
          ∀ t ∈ e.transactions, t.tx.vout.length < 65536 := by
    decide
  obtain ⟨h₀, h₁, hlen, hfits⟩ := eval
  have hpush := ((PushesTo.refl (n := Node.initial ∅)).push (eq_added h₀)).push (eq_added h₁)
  exact ⟨_, hpush, hlen, (incremental_indexes_eq_rebuild hpush hfits).1⟩

end DarknetSpace
