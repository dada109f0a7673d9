import DarknetSpace.Core.PushPop
import DarknetSpace.Core.Tower

/-!
# Double spends

`m_spent_keys` is what stops a key image from being spent twice, and it is
written on its own: a push inserts, a pop and every refusal erase. A push never
erases an image of the chain, not even where it fails half way: its undo throws
before it takes a recorded transaction back, and the transaction at hand was
checked to have no image of the chain. A pop erases images first and takes the
block out last, so a pop that stops between the two leaves a block in the chain
whose images are free. It cannot stop there when it finds the indexes as the
push of its block left them.

Main result: `no_double_spend_of_towers`. The condition is on each pop and the chain it
finds (`Tower`), and holds as long as no alias of an ordinary transaction and no flag
has been changed under a block; which runs break it is shown by an example.
-/

namespace DarknetSpace

open StateExn

/-! ## The key images of the chain -/

/-- The key images of the `txin_to_key` inputs of every transaction. -/
def chainImages (bs : List BlockEntry) : List KeyImage :=
  bs.flatMap fun e => e.transactions.flatMap fun t => keyImages t.tx.vin

/-- No key image is spent twice by the main chain, and `m_spent_keys` has all of
them. -/
structure NoDoubleSpend (s : Storage) : Prop where
  distinct : (chainImages s.mBlocks).Nodup
  known : ∀ k ∈ chainImages s.mBlocks, k ∈ s.mSpentKeys

/-- The flags of outputs are no key images. -/
theorem chainImages_forgetFlags (bs : List BlockEntry) :
    chainImages (forgetFlags bs) = chainImages bs := by
  unfold chainImages forgetFlags
  rw [List.flatMap_map]
  refine congrArg List.flatten (List.map_congr_left fun e _ => ?_)
  show (e.transactions.map TransactionEntry.forgetFlags).flatMap _ = _
  rw [List.flatMap_map]
  rfl

theorem chainImages_congr {bs bs' : List BlockEntry} (h : forgetFlags bs' = forgetFlags bs) :
    chainImages bs' = chainImages bs := by
  rw [← chainImages_forgetFlags, h, chainImages_forgetFlags]

theorem NoDoubleSpend.congr {s s' : Storage} (h : NoDoubleSpend s)
    (hb : forgetFlags s'.mBlocks = forgetFlags s.mBlocks)
    (hk : ∀ k ∈ chainImages s.mBlocks, k ∈ s'.mSpentKeys) : NoDoubleSpend s' := by
  have hi := chainImages_congr hb
  exact ⟨hi ▸ h.distinct, fun k hk' => hk k (hi ▸ hk')⟩

/-! ## A block that was added -/

/-- From `s` to `s'`, `ks` became spent. -/
structure ImagesAdded (ks : List KeyImage) (s s' : Storage) : Prop where
  nodup : ks.Nodup
  fresh : ∀ k ∈ ks, k ∉ s.mSpentKeys
  spent : ∀ k, k ∈ s'.mSpentKeys ↔ k ∈ s.mSpentKeys ∨ k ∈ ks

/-- Images that are added, and more behind them. -/
theorem ImagesAdded.append {ks ks' : List KeyImage} {s s₁ s₂ : Storage} (h : ImagesAdded ks s s₁)
    (h' : ImagesAdded ks' s₁ s₂) : ImagesAdded (ks ++ ks') s s₂ := by
  refine ⟨?_, fun k hk => ?_, fun k => ?_⟩
  · rw [List.nodup_append]
    refine ⟨h.nodup, h'.nodup, fun a ha b hb hab => ?_⟩
    exact h'.fresh b hb ((h.spent b).2 (.inr (hab ▸ ha)))
  · intro hs
    rcases List.mem_append.1 hk with hk | hk
    · exact h.fresh k hk hs
    · exact h'.fresh k hk ((h.spent k).2 (.inl hs))
  · rw [h'.spent, h.spent, List.mem_append, or_assoc]

section

variable {env : Env}

/-- A transaction that is recorded adds its images. -/
theorem TxRecorded.imagesAdded {tx : Transaction} {txId : Hash} {idx : TransactionIndex}
    {s sa s' : Storage} {txe : TransactionEntry} (h : TxRecorded env tx txId idx s sa s' txe) :
    ImagesAdded (keyImages txe.tx.vin) s s' := by
  have htx : txe.tx = tx := by
    rw [h.entry]
    rfl
  rw [htx]
  obtain ⟨hnd, hfresh⟩ := h.keyImages_fresh
  refine ⟨hnd, hfresh, fun k => ?_⟩
  rw [h.spentKeys, Std.ExtTreeSet.mem_insertMany_list, List.contains_iff_mem]

/-- So do all transactions of a block. -/
theorem TxsTaken.imagesAdded {now k : Nat} {ids : List Hash} {n n' : Node} {taken : List TakenTx}
    (h : TxsTaken env now k ids n taken n') :
    ImagesAdded (taken.flatMap fun t => keyImages t.entry.tx.vin) n.chain n'.chain := by
  induction h with
  | nil => exact ⟨List.nodup_nil, by simp, by simp⟩
  | cons _ _ hr _ ih =>
    rw [List.flatMap_cons]
    exact hr.imagesAdded.append ih

/-- A block adds the images of its transactions. -/
theorem Connected.imagesAdded {now : Nat} {bl : Block} {n n' : Node}
    (c : Connected env now bl (getBlockHash env bl) n n') (hn : Sound env (fun _ => True) n) :
    ImagesAdded (chainImages [c.entry]) n.chain n'.chain := by
  have hall : ImagesAdded _ (n.chain.setCheckpointZone n.chain.mBlocks.length) c.m.chain :=
    c.recorded.imagesAdded.append c.txs.imagesAdded
  have himages : chainImages [c.entry] = keyImages c.coinbase.tx.vin ++
      c.taken.flatMap fun t => keyImages t.entry.tx.vin := by
    unfold chainImages
    rw [List.flatMap_singleton, c.entry_transactions, List.flatMap_cons, List.flatMap_map]
  rw [himages, c.chain_eq hn.sync]
  exact ⟨hall.nodup, hall.fresh, hall.spent⟩

/-- A block that is connected spends nothing twice. -/
theorem NoDoubleSpend.push {now : Nat} {bl : Block} {n n' : Node} (h : NoDoubleSpend n.chain)
    (c : Connected env now bl (getBlockHash env bl) n n') (hn : Sound env (fun _ => True) n) :
    NoDoubleSpend n'.chain := by
  have hnew := c.imagesAdded hn
  have hblocks : n'.chain.mBlocks = c.m.chain.mBlocks ++ [c.entry] := by
    rw [c.chain_eq hn.sync]
    rfl
  have himages : chainImages n'.chain.mBlocks =
      chainImages n.chain.mBlocks ++ chainImages [c.entry] := by
    rw [hblocks, ← chainImages_congr c.forgetFlags_eq]
    exact List.flatMap_append
  constructor
  · rw [himages, List.nodup_append]
    refine ⟨h.distinct, hnew.nodup, fun a ha b hb hab => ?_⟩
    exact hnew.fresh b hb (hab ▸ h.known a ha)
  · intro k hk
    rw [himages, List.mem_append] at hk
    exact (hnew.spent k).2 (hk.imp_left (h.known k))

/-- A tower spends no image twice. -/
theorem Tower.noDoubleSpend {s : Storage} (h : Tower env s) : NoDoubleSpend s := by
  induction h with
  | base view => exact ⟨by rw [chainImages_congr view.blocks]; exact List.nodup_nil,
      by rw [chainImages_congr view.blocks]; exact fun k hk => absurd hk List.not_mem_nil⟩
  | block _ sound c _ view ih =>
    refine (ih.push c sound).congr view.blocks fun k hk => ?_
    rw [view.ledger.spentKeys]
    exact (ih.push c sound).known k hk

/-! ## A push that fails -/

variable {K : List KeyImage}

/-- `m_spent_keys` has every image of `K`. -/
def Knows (K : List KeyImage) (s : Storage) : Prop := ∀ k ∈ K, k ∈ s.mSpentKeys

theorem Knows.congr {s s' : Storage} (h : Knows K s) (hs : s'.mSpentKeys = s.mSpentKeys) :
    Knows K s' := by
  intro k hk
  rw [hs]
  exact h k hk

/-- Flags of outputs are not key images. -/
theorem updateFlagsOfDirectSpend_spentKeys (env : Env) (amount : UInt64) (offs : List UInt64)
    (spent : Bool) (s : Storage) :
    (stateOf (updateFlagsOfDirectSpend env amount offs spent s)).mSpentKeys = s.mSpentKeys := by
  unfold updateFlagsOfDirectSpend
  split
  · next g =>
    obtain ⟨idx, out, -, h⟩ | h | ⟨e, h⟩ := updateSpentTxFlagsForInput_cases env amount g spent s
    · rw [h]
      rfl
    · rw [h]
      rfl
    · rw [h]
      rfl
  · rfl

/-- Adding an input only inserts. -/
theorem keeps_knows_addInput (i : Txin) : Keeps (Knows K) (addTransactionInput env i) := by
  cases i with
  | toKey amount offs ki =>
    intro s hs
    simp only [addTransactionInput]
    split
    · exact hs
    · intro k hk
      rw [updateFlagsOfDirectSpend_spentKeys]
      exact Std.ExtTreeSet.mem_insert.2 (.inr (hs k hk))
  | gen => exact Keeps.pure _
  | toScript => exact Keeps.pure _
  | toScripthash => exact Keeps.pure _

theorem keeps_knows_addInputs (vin : List Txin) :
    Keeps (Knows K) (addTransactionInputs env vin) := by
  induction vin with
  | nil => exact Keeps.pure _
  | cons i rest ih => exact Keeps.bind (keeps_knows_addInput i) fun _ => Keeps.ite ih (Keeps.pure _)

/-- Purging an input erases its own image. -/
theorem keeps_knows_purgeInput (strict : Bool) {i : Txin} (hi : ∀ k ∈ keyImages [i], k ∉ K) :
    Keeps (Knows K) (purgeTransactionInput env strict i) := by
  cases i with
  | toKey amount offs ki =>
    intro s hs
    simp only [purgeTransactionInput]
    split
    · exact hs
    · intro k hk
      rw [updateFlagsOfDirectSpend_spentKeys]
      refine Std.ExtTreeSet.mem_erase.2 ⟨fun hc => ?_, hs k hk⟩
      rw [← Std.LawfulEqCmp.eq_of_compare hc] at hk
      exact hi ki (List.mem_singleton_self _) hk
  | gen => exact Keeps.pure _
  | toScript => exact Keeps.pure _
  | toScripthash => exact Keeps.pure _

/-- Purging inputs forgets their own images only. -/
theorem keeps_knows_purgeInputs (strict : Bool) {vin : List Txin}
    (hvin : ∀ k ∈ keyImages vin, k ∉ K) : Keeps (Knows K) (purgeTransactionInputs env strict vin) := by
  induction vin with
  | nil => exact Keeps.pure _
  | cons i rest ih =>
    have hsplit : keyImages (i :: rest) = keyImages [i] ++ keyImages rest := by
      unfold keyImages
      rw [← List.filterMap_append]
      rfl
    rw [hsplit] at hvin
    refine Keeps.bind (keeps_knows_purgeInput strict fun k hk =>
      hvin k (List.mem_append_left _ hk)) fun _ => Keeps.ite (Keeps.pure _) (ih fun k hk =>
        hvin k (List.mem_append_right _ hk))

/-- A transaction that fails to be added forgets its own images at most. -/
theorem keeps_knows_addTransactionFromBlock {tx : Transaction} (txId : Hash) (h : Nat) (i : UInt16)
    (htx : ∀ k ∈ keyImages tx.vin, k ∉ K) :
    Keeps (Knows K) (addTransactionFromBlock env tx txId h i) := by
  have extra : Keeps (Knows K) (processBlockchainTxExtra env tx) := fun s hs =>
    hs.congr (by
      have := congrArg Storage.mSpentKeys (processBlockchainTxExtra_withoutAliases env tx s)
      exact this)
  have unextra : Keeps (Knows K) (unprocessBlockchainTxExtra env tx) := fun s hs =>
    hs.congr (by
      have := congrArg Storage.mSpentKeys (unprocessBlockchainTxExtra_withoutAliases env tx s)
      exact this)
  have purge (strict : Bool) :
      Keeps (Knows K) (purgeTransactionKeyimagesFromBlockchain env tx strict) :=
    keeps_knows_purgeInputs strict htx
  refine Keeps.bind extra fun r => Keeps.ite ?_ (Keeps.pure none)
  refine Keeps.bind (keeps_knows_addInputs tx.vin) fun r => Keeps.ite ?_ ?_
  · intro s hs
    simp only [bind_apply, get_apply]
    split
    · exact Keeps.bind (purge true) (fun _ => Keeps.bind unextra fun _ => Keeps.pure none) s hs
    · unfold pushTransactionToGlobalOutsIndex
      split <;> exact hs
  · exact Keeps.bind (purge false) fun _ => Keeps.bind unextra fun _ => Keeps.pure none

/-- Inputs that passed `check_tx_inputs` were not spent. -/
theorem checkInputs_unspent {now : Nat} {s : Storage} {id : Hash} {vin : List Txin}
    {sigs : List (List Signature)} {m used : Nat}
    (h : s.checkInputs env now id vin sigs m = .ok (some used)) :
    ∀ k ∈ keyImages vin, k ∉ s.mSpentKeys := by
  induction vin generalizing sigs m with
  | nil => exact fun k hk => absurd hk List.not_mem_nil
  | cons i rest ih =>
    cases i with
    | toKey amount offs ki =>
      unfold Storage.checkInputs at h
      split at h
      · cases h
      · split at h
        · cases h
        · next hki =>
          split at h
          · cases h
          · split at h
            · intro k hk
              rw [keyImages_toKey_cons] at hk
              rcases List.mem_cons.1 hk with rfl | hk
              · exact fun hmem => hki (Std.ExtTreeSet.mem_iff_contains.1 hmem)
              · exact ih h k hk
            · next hno =>
              exact absurd h (hno used)
    | gen => cases h
    | toScript => cases h
    | toScripthash => cases h

/-- Giving the transaction at hand back, and the undo behind it. -/
theorem knows_giveBack {now : Nat} {bl : Block} {k : Nat} {n : Node} {α : Type}
    {rest : Bool → NodeM α} (tx : Transaction) (hrec : Recorded env bl k n.chain)
    (hk : k ≤ bl.txHashes.length) (hK : Knows K n.chain) :
    Knows K (stateOf ((do
      returnToPool env now tx
      let r ← purgeBlockDataFromBlockchain env now bl k
      rest r) n)).chain := by
  obtain ⟨e, n', he, hc⟩ := giveBack_throws tx hrec hk
  rw [he]
  exact hc ▸ hK

/-- The loop over the transactions of a block. -/
theorem knows_takeTransactions (now : Nat) {bl : Block} (id : Hash) {k : Nat} {rest : List Hash}
    {n : Node} (hrec : Recorded env bl k n.chain) (hrest : bl.txHashes.drop k = rest)
    (hK : Knows K n.chain) :
    Knows K (stateOf (takeTransactions env now bl id k rest n)).chain := by
  induction rest generalizing k n with
  | nil => exact hK
  | cons txId rest ih =>
    have hk : k < bl.txHashes.length := by
      by_contra hge
      rw [List.drop_eq_nil_of_le (by omega)] at hrest
      cases hrest
    have hid : bl.txHashes[k]? = some txId := by
      rw [← List.head?_drop, hrest]
      rfl
    have hrest' : bl.txHashes.drop (k + 1) = rest := by
      rw [← List.tail_drop, hrest]
      rfl
    unfold takeTransactions
    rw [bind_of_ok (get_apply n)]
    cases htake : n.pool.takeTx env txId with
    | none =>
      simp only
      rw [bind_of_error (purgeBlockData_unpushed hrec hk.le)]
      exact hK
    | some r =>
      obtain ⟨txd, pool⟩ := r
      simp only
      rw [bind_of_ok (set_apply n { n with pool })]
      cases hin : n.chain.checkTxInputs env now (prunedTx n.chain.mIsInCheckpointZone txd.tx) with
      | error e =>
        rw [bind_of_error (readChain_of_error (n := { n with pool }) hin)]
        exact hK
      | ok used =>
        rw [bind_of_ok (readChain_of_ok (n := { n with pool }) hin)]
        cases used with
        | none =>
          exact knows_giveBack (n := { n with pool }) _ hrec hk.le hK
        | some used =>
          simp only
          -- the images at hand are new, so taking them back takes none of `K`
          have hnew : ∀ k ∈ keyImages (prunedTx n.chain.mIsInCheckpointZone txd.tx).vin, k ∉ K :=
            fun k hk hmem => checkInputs_unspent hin k hk (hK k hmem)
          have hadded : Knows K (stateOf (addTransactionFromBlock env
              (prunedTx n.chain.mIsInCheckpointZone txd.tx) txId n.chain.mBlocks.length
              (UInt16.ofNat (k + 1)) n.chain)) :=
            keeps_knows_addTransactionFromBlock txId _ _ hnew n.chain hK
          obtain ⟨entry, s', sa, hadd, htx⟩ | ⟨s', hadd, hsame⟩ | ⟨e, s', hadd, hsame⟩ :=
            addTransactionFromBlock_cases env (prunedTx n.chain.mIsInCheckpointZone txd.tx) txId
              n.chain.mBlocks.length (UInt16.ofNat (k + 1)) n.chain
          · rw [hadd] at hadded
            rw [bind_of_ok (onChain_of_ok (n := { n with pool }) hadd)]
            have htail := ih (n := { n with chain := s', pool }) (hrec.step htx hid) hrest' hadded
            simp only
            cases hr : takeTransactions env now bl id (k + 1) rest
                { n with chain := s', pool } with
            | error e m =>
              rw [hr] at htail
              rw [bind_of_error hr]
              exact htail
            | ok taken m =>
              rw [hr] at htail
              rw [bind_of_ok hr]
              cases taken <;> exact htail
          · rw [hadd] at hadded
            have hframe := addTransactionFromBlock_frame env
              (prunedTx n.chain.mIsInCheckpointZone txd.tx) txId n.chain.mBlocks.length
              (UInt16.ofNat (k + 1)) n.chain.frame n.chain rfl
            rw [hadd] at hframe
            rw [bind_of_ok (onChain_of_ok (n := { n with pool }) hadd)]
            exact knows_giveBack (n := { n with chain := s', pool }) _ (hrec.congr hframe hsame.1)
              hk.le hadded
          · rw [hadd] at hadded
            rw [bind_of_error (onChain_of_error (n := { n with pool }) hadd)]
            exact hadded

/-- The call added its block, or `K` is still spent. -/
def AddedOrKnows (K : List KeyImage) : EStateM.Result Exn Node BlockVerdict → Prop
  | .ok v n' => v = .added ∨ Knows K n'.chain
  | .error _ n' => Knows K n'.chain

/-- The end of a push adds the block, or the images of the chain are still known. -/
theorem finishBlock_addedOrKnows (now : Nat) {bl : Block} (id : Hash) (coinbase : TransactionEntry)
    {taken : List TakenTx} {ei : TxExtraInfo} {m : Node}
    (hparse : parseAndValidateTxExtra env bl.minerTx.toTransactionPrefix = .ok (true, ei))
    (hrec : Recorded env bl bl.txHashes.length m.chain) (hlen : taken.length = bl.txHashes.length)
    (hsync : m.chain.mBlocksIndex.length = m.chain.mBlocks.length) (hK : Knows K m.chain) :
    AddedOrKnows K (finishBlock env now bl id coinbase taken m) := by
  have purge : purgeBlockDataFromBlockchain env now bl taken.length m = .error .indexOverflow m := by
    rw [hlen]
    exact purgeBlockData_unpushed hrec le_rfl
  unfold finishBlock
  cases hval : validateMinerTransaction env m.chain.mBlocks bl (cumulativeBlockSize env bl taken)
      (feeSummary taken) (alreadyGeneratedCoins m.chain.mBlocks) with
  | error e =>
    rw [bind_of_error (readChain_of_error hval)]
    exact hK
  | ok v =>
    rw [bind_of_ok (readChain_of_ok hval)]
    cases v with
    | none =>
      simp only
      rw [bind_of_error purge]
      exact hK
    | some v =>
      simp only
      rw [bind_of_ok (get_apply m)]
      split
      · rw [bind_of_error purge]
        exact hK
      · obtain ⟨pad, hpad⟩ := pushBlockScratchpadData_of_parse hparse m.chain.mScratchpad
        have happ : ∃ s', appendBlock env id
            (newBlockEntry env m.chain bl coinbase taken v.1 v.2) m.chain = .ok ⟨⟩ s' :=
          appendBlock_of_scratchpad hpad hsync
        obtain ⟨s', happ⟩ := happ
        rw [bind_of_ok (onChain_of_ok happ)]
        exact .inl rfl

/-- **A push frees no image of the chain**, whether or not it adds its block. -/
theorem handleBlockToMainChain_addedOrKnows {n : Node} (hn : Sound env (fun _ => True) n)
    (now : Nat) (bl : Block) (id : Hash) (hK : Knows K n.chain) :
    AddedOrKnows K (handleBlockToMainChain env now bl id n) := by
  unfold handleBlockToMainChain
  rw [bind_of_ok (get_apply n)]
  cases checkBlockHeader env now n.chain bl with
  | some v => exact .inr hK
  | none =>
    simp only
    rw [bind_of_ok (onChain_modify _ n), bind_of_ok (get_apply _)]
    generalize hz : ({ n with chain := n.chain.setCheckpointZone n.chain.mBlocks.length } : Node) = z
    have hKz : Knows K z.chain := by
      rw [← hz]
      exact hK
    have hsync : z.chain.mBlocksIndex.length = z.chain.mBlocks.length := by
      rw [← hz]
      exact hn.sync
    split
    · next hform =>
      -- a coinbase spends nothing
      have hcoinbase : ∀ k ∈ keyImages bl.minerTx.vin, k ∉ K := by
        unfold checkBlockForm prevalidateMinerTransaction at hform
        rw [Bool.and_eq_true] at hform
        have hpre := hform.2
        split at hpre
        · next g hv =>
          rw [hv]
          exact fun k hk => absurd hk List.not_mem_nil
        · cases hpre
      have hadded : Knows K (stateOf (addTransactionFromBlock env bl.minerTx
          (getTransactionHash env bl.minerTx) z.chain.mBlocks.length 0 z.chain)) :=
        keeps_knows_addTransactionFromBlock _ _ _ hcoinbase z.chain hKz
      unfold connectBlock
      rw [bind_of_ok (get_apply z)]
      obtain ⟨txe, s', sa, hadd, htx⟩ | ⟨s', hadd, -⟩ | ⟨e, s', hadd, -⟩ :=
        addTransactionFromBlock_cases env bl.minerTx (getTransactionHash env bl.minerTx)
          z.chain.mBlocks.length 0 z.chain
      · rw [hadd] at hadded
        rw [bind_of_ok (onChain_of_ok hadd)]
        simp only
        have hlen : s'.mBlocks.length = z.chain.mBlocks.length := Storage.length_of_frame htx.frame
        have hindex : s'.mBlocksIndex = z.chain.mBlocksIndex := by
          have := congrArg Storage.mBlocksIndex htx.frame
          exact this
        have hrec : Recorded env bl 0 s' := by
          refine ⟨⟨0, ?_⟩, fun id hid => ?_⟩
          · rw [htx.transactions, Std.ExtTreeMap.getElem?_insert_self, hlen]
          · rw [List.take_zero] at hid
            cases hid
        have htake := knows_takeTransactions now id (n := { z with chain := s' }) hrec List.drop_zero hadded
        obtain ⟨taken, m, hr, htaken⟩ | ⟨e, m, hr, -⟩ :=
          takeTransactions_cases now id (n := { z with chain := s' }) hrec List.drop_zero
        · rw [hr] at htake
          rw [bind_of_ok hr]
          obtain ⟨⟨ei, hparse⟩, -⟩ := processBlockchainTxExtra_true htx.extra
          refine finishBlock_addedOrKnows now id txe hparse (htaken.recorded hrec List.drop_zero)
            htaken.length ?_ htake
          have hlen' : m.chain.mBlocks.length = s'.mBlocks.length :=
            Storage.length_of_frame htaken.frame
          have hindex' : m.chain.mBlocksIndex = s'.mBlocksIndex := by
            have := congrArg Storage.mBlocksIndex htaken.frame
            exact this
          rw [hindex', hindex, hlen', hlen, hsync]
        · rw [hr] at htake
          rw [bind_of_error hr]
          exact htake
      · rw [hadd] at hadded
        rw [bind_of_ok (onChain_of_ok hadd)]
        exact .inr hadded
      · rw [hadd] at hadded
        rw [bind_of_error (onChain_of_error hadd)]
        exact hadded
    · exact .inr hKz

end

/-! ## What a call leaves in the log of the pops -/

section

variable {env : Env} {L : List Storage}

/-- The pops so far. -/
def PopsSoFar (L : List Storage) (n : Node) : Prop := n.popLog = L

/-- A step on the chain pops no block by itself. -/
theorem keeps_pops_onChain {α : Type} (x : StorageM α) : Keeps (PopsSoFar L) (onChain x) := by
  intro n hn
  cases hr : x n.chain with
  | ok a s =>
    rw [onChain_of_ok hr]
    exact hn
  | error e s =>
    rw [onChain_of_error hr]
    exact hn

theorem keeps_pops_returnToPool (now : Nat) (tx : Transaction) :
    Keeps (PopsSoFar L) (returnToPool env now tx) := by
  intro n hn
  unfold returnToPool
  split <;> exact hn

/-- purging a transaction, -/
theorem keeps_pops_purgeTransaction (now : Nat) (txId : Hash) :
    Keeps (PopsSoFar L) (purgeTransactionFromBlockchain env now txId) := by
  refine Keeps.bind Keeps.get fun n => ?_
  cases n.chain.mTransactions[txId]? with
  | none => exact Keeps.pure _
  | some idx =>
    refine Keeps.bind (Keeps.reads _) fun txe => Keeps.bind (keeps_pops_onChain _) fun _ =>
      Keeps.bind (keeps_pops_onChain _) fun r => Keeps.ite ?_ (Keeps.pure _)
    have hback : Keeps (PopsSoFar L) (returnOrdinaryToPool env now txe.tx) :=
      Keeps.ite (Keeps.pure _) (keeps_pops_returnToPool now txe.tx)
    exact Keeps.bind hback fun _ => Keeps.bind (keeps_pops_onChain _) fun _ =>
      Keeps.bind (Keeps.modify fun n hn => hn) fun _ => Keeps.pure _

/-- purging the data of a block, -/
theorem keeps_pops_purgeBlockData (now : Nat) (bl : Block) (k : Nat) :
    Keeps (PopsSoFar L) (purgeBlockDataFromBlockchain env now bl k) := by
  have all : ∀ ids, Keeps (PopsSoFar L) (purgeTransactions env now ids) := by
    intro ids
    induction ids with
    | nil => exact Keeps.pure _
    | cons id rest ih =>
      exact Keeps.bind (keeps_pops_purgeTransaction now id) fun _ =>
        Keeps.bind ih fun _ => Keeps.pure _
  exact Keeps.ite (Keeps.pure _) (all _)

/-- or taking transactions for one. -/
theorem keeps_pops_takeTransactions (now : Nat) (bl : Block) (id : Hash) (k : Nat)
    (ids : List Hash) : Keeps (PopsSoFar L) (takeTransactions env now bl id k ids) := by
  induction ids generalizing k with
  | nil => exact Keeps.pure _
  | cons txId rest ih =>
    have purge : Keeps (PopsSoFar L) (purgeBlockDataFromBlockchain env now bl k) :=
      keeps_pops_purgeBlockData now bl k
    intro n hn
    unfold takeTransactions
    rw [bind_of_ok (get_apply n)]
    cases htake : n.pool.takeTx env txId with
    | none => exact Keeps.bind purge (fun _ => Keeps.pure _) n hn
    | some r =>
      simp only
      rw [bind_of_ok (set_apply n { n with pool := r.2 })]
      have hn' : PopsSoFar L { n with pool := r.2 } := hn
      refine Keeps.bind (Keeps.reads _) (fun used => ?_) _ hn'
      cases used with
      | none =>
        exact Keeps.bind (keeps_pops_returnToPool now _) fun _ => Keeps.bind purge fun _ =>
          Keeps.bind (keeps_pops_onChain _) fun _ => Keeps.pure _
      | some u =>
        refine Keeps.bind (keeps_pops_onChain _) fun entry => ?_
        cases entry with
        | none =>
          exact Keeps.bind (keeps_pops_returnToPool now _) fun _ => Keeps.bind purge fun _ =>
            Keeps.pure _
        | some entry =>
          refine Keeps.bind (ih (k + 1)) fun taken => ?_
          cases taken <;> exact Keeps.pure _

/-- Pushing pops nothing. -/
theorem keeps_pops_handleBlock (now : Nat) (bl : Block) (id : Hash) :
    Keeps (PopsSoFar L) (handleBlockToMainChain env now bl id) := by
  have finish (coinbase : TransactionEntry) (taken : List TakenTx) :
      Keeps (PopsSoFar L) (finishBlock env now bl id coinbase taken) := by
    have purge : Keeps (PopsSoFar L) (purgeBlockDataFromBlockchain env now bl taken.length) :=
      keeps_pops_purgeBlockData now bl taken.length
    refine Keeps.bind (Keeps.reads _) fun v => ?_
    cases v with
    | none => exact Keeps.bind purge fun _ => Keeps.pure _
    | some v =>
      refine Keeps.bind Keeps.get fun n => Keeps.ite ?_ ?_
      · exact Keeps.bind purge fun _ => Keeps.pure _
      · exact Keeps.bind (keeps_pops_onChain _) fun _ => Keeps.pure _
  have connect : Keeps (PopsSoFar L) (connectBlock env now bl id) := by
    refine Keeps.bind Keeps.get fun n => Keeps.bind (keeps_pops_onChain _) fun coinbase => ?_
    cases coinbase with
    | none => exact Keeps.pure _
    | some coinbase =>
      refine Keeps.bind (keeps_pops_takeTransactions now bl id 0 _) fun taken => ?_
      cases taken with
      | none => exact Keeps.pure _
      | some taken => exact finish coinbase taken
  refine Keeps.bind Keeps.get fun n => ?_
  cases checkBlockHeader env now n.chain bl with
  | some v => exact Keeps.pure _
  | none =>
    exact Keeps.bind (keeps_pops_onChain _) fun _ => Keeps.bind Keeps.get fun m =>
      Keeps.ite connect (Keeps.pure _)

/-- A pop logs the chain it found. -/
theorem popLog_popBlock (now : Nat) (n : Node) :
    (stateOf (popBlockFromBlockchain env now n)).popLog = n.popLog ++ [n.chain] := by
  unfold popBlockFromBlockchain
  rw [bind_of_ok (modify_apply _ n)]
  have hlog : PopsSoFar (n.popLog ++ [n.chain]) { n with popLog := n.popLog ++ [n.chain] } := rfl
  refine Keeps.bind Keeps.get (fun m => ?_) _ hlog
  cases m.chain.mBlocks.getLast? with
  | none => exact Keeps.pure _
  | some bei =>
    refine Keeps.ite (Keeps.pure _) (Keeps.bind (Keeps.reads _) fun p => ?_)
    exact Keeps.bind (Keeps.modify fun n hn => hn) fun _ =>
      Keeps.bind (keeps_pops_purgeBlockData now bei.bl _) fun r => Keeps.ite (Keeps.pure _)
        (Keeps.bind Keeps.get fun m => Keeps.ite (Keeps.pure _)
          (Keeps.bind (Keeps.modify fun n hn => hn) fun _ => Keeps.pure _))

end

/-! ## Runs -/

section

variable {env : Env}

/-- What every run keeps: while each pop found the indexes as the pushes left
them, no image is spent twice. -/
structure SpentOnce (env : Env) (n : Node) : Prop where
  sound : Sound env (fun _ => True) n
  spent : (∀ s ∈ n.popLog, Tower env s) → NoDoubleSpend n.chain

/-- A quiet call that frees no image of the chain. -/
theorem SpentOnce.of_quiet {n n' : Node} (h : SpentOnce env n)
    (hq : Quiet env (fun _ => True) n n') (hlog : n'.popLog = n.popLog)
    (hk : (∀ s ∈ n.popLog, Tower env s) → Knows (chainImages n.chain.mBlocks) n'.chain) :
    SpentOnce env n' := by
  refine ⟨h.sound.of_quiet hq, fun hpops => ?_⟩
  rw [hlog] at hpops
  exact (h.spent hpops).congr hq.chain.blocks (hk hpops)

/-- One more block on the main chain. -/
theorem SpentOnce.push {n : Node} (h : SpentOnce env n) (now : Nat) (bl : Block) :
    SpentOnce env (stateOf (handleBlockToMainChain env now bl (getBlockHash env bl) n)) := by
  have hlog : (stateOf (handleBlockToMainChain env now bl (getBlockHash env bl) n)).popLog =
      n.popLog := keeps_pops_handleBlock now bl (getBlockHash env bl) n rfl
  have hquiet := handleBlockToMainChain_addedOrQuiet h.sound now bl (getBlockHash env bl)
  have hknows (hpops : ∀ s ∈ n.popLog, Tower env s) :=
    handleBlockToMainChain_addedOrKnows h.sound now bl (getBlockHash env bl) (h.spent hpops).known
  cases hr : handleBlockToMainChain env now bl (getBlockHash env bl) n with
  | error e n' =>
    rw [hr] at hlog hquiet hknows
    exact h.of_quiet hquiet hlog hknows
  | ok v n' =>
    rw [hr] at hlog hquiet hknows
    by_cases hv : v = .added
    · subst hv
      obtain ⟨c⟩ := handleBlockToMainChain_added hr
      refine ⟨c.sound h.sound, fun hpops => ?_⟩
      have hpops' : ∀ s ∈ n'.popLog, Tower env s := hpops
      rw [show n'.popLog = n.popLog from hlog] at hpops'
      exact (h.spent hpops').push c h.sound
    · exact h.of_quiet (hquiet.resolve_left hv) hlog fun hpops => (hknows hpops).resolve_left hv

/-- A pop is logged, so it found a tower and left one. -/
theorem SpentOnce.pop {n : Node} (h : SpentOnce env n) (now : Nat) :
    SpentOnce env (stateOf (popBlockFromBlockchain env now n)) := by
  constructor
  · have hpop := popBlock_shortenedOrQuiet h.sound now
    cases hr : popBlockFromBlockchain env now n with
    | error e n' =>
      rw [hr] at hpop
      exact h.sound.of_quiet hpop
    | ok r n' =>
      rw [hr] at hpop
      cases r with
      | true => exact hpop.sound
      | false => exact h.sound.of_quiet hpop
  · intro hpops
    have htower : Tower env n.chain := by
      refine hpops n.chain ?_
      rw [popLog_popBlock]
      exact List.mem_append_right _ (List.mem_singleton_self _)
    exact (htower.popBlock now h.sound).noDoubleSpend

theorem SpentOnce.initial (env : Env) (checkpoints : Checkpoints) :
    SpentOnce env (Node.initial checkpoints) :=
  ⟨Sound.initial env _ checkpoints,
    fun _ => (Tower.base (SameView.refl _) : Tower env (Storage.empty checkpoints)).noDoubleSpend⟩

/-- **No image is spent twice**, as an invariant of all calls. -/
theorem spentOnce_chainInvariant (env : Env) : ChainInvariant env (SpentOnce env) where
  push now bl := Keeps.upTo fun _ hn => hn.push now bl
  pop now := Keeps.upTo fun _ hn => hn.pop now
  side _ _ _ _ hn := ⟨⟨hn.sound.index, hn.sound.outputs, hn.sound.txs, hn.sound.pool⟩,
    fun hpops => ⟨(hn.spent hpops).distinct, (hn.spent hpops).known⟩⟩

/-- **No double spend** in any state of a run whose pops all found the indexes
as the pushes of the blocks left them. -/
theorem no_double_spend_of_towers {n : Node} (hn : Reachable env n)
    (hpops : ∀ s ∈ n.popLog, Tower env s) : NoDoubleSpend n.chain := by
  have hspent : SpentOnce env n := by
    refine (spentOnce_chainInvariant env).of_reachable ?_ ?_ hn
    · intro checkpoints now depth bl n hg
      have hpush := (SpentOnce.initial env checkpoints).push now bl
      rw [addNewBlock_initial hg] at hpush
      exact hpush
    · intro now blob kept
      refine Keeps.upTo fun n hn => ?_
      obtain ⟨pool, hstate, hpool⟩ :=
        handleIncomingTx_poolOnly ((guaranteed_true env).admitted blob) now kept hn.sound.pool
      rw [hstate]
      exact ⟨⟨hn.sound.index, hn.sound.outputs, hn.sound.txs, hpool⟩,
        fun hpops => ⟨(hn.spent hpops).distinct, (hn.spent hpops).known⟩⟩
  exact hspent.spent hpops

end

/-- A block of the main line is popped for another line. -/
theorem no_double_spend_reorganised :
    NoDoubleSpend (Devnet.node ∅ Devnet.reorganised).chain := by
  have heval :
      let r₀ := handleBlockToMainChain Devnet.env Devnet.now Devnet.genesis
        (getBlockHash Devnet.env Devnet.genesis) (Node.initial ∅)
      let r₁ := handleBlockToMainChain Devnet.env Devnet.now (Devnet.mainBlock 1)
        (getBlockHash Devnet.env (Devnet.mainBlock 1)) (stateOf r₀)
      isAdded r₀ = true ∧ isAdded r₁ = true ∧
        (∀ e ∈ (stateOf r₀).chain.mBlocks, e.transactions.length < 65536 ∧
          ∀ t ∈ e.transactions, t.tx.vout.length < 65536) ∧
        (∀ e ∈ (stateOf r₁).chain.mBlocks, e.transactions.length < 65536 ∧
          ∀ t ∈ e.transactions, t.tx.vout.length < 65536) ∧
        (Devnet.run ∅ Devnet.reorganised).isSome = true ∧
        (Devnet.node ∅ Devnet.reorganised).popLog.length = 1 ∧
        ∀ s ∈ (Devnet.node ∅ Devnet.reorganised).popLog,
          s.mBlocks = (stateOf r₁).chain.mBlocks ∧
          s.mBlocksIndex = (stateOf r₁).chain.mBlocksIndex ∧
          s.mTransactions = (stateOf r₁).chain.mTransactions ∧
          s.mOutputs = (stateOf r₁).chain.mOutputs ∧
          s.mSpentKeys = (stateOf r₁).chain.mSpentKeys ∧
          s.mAliases = (stateOf r₁).chain.mAliases := by
    decide +kernel
  obtain ⟨h₀, h₁, f₀, f₁, hrun, -, hpops⟩ := heval
  have htower := (((PushPopRun.start ∅).push (eq_added h₀) f₀).push (eq_added h₁) f₁).tower.1
  refine no_double_spend_of_towers (Devnet.reachable_node ∅ Devnet.reorganised hrun) fun s hs => ?_
  obtain ⟨hblocks, hindex, htxs, houts, hkeys, haliases⟩ := hpops s hs
  refine htower.of_view ⟨congrArg forgetFlags hblocks, hindex, ⟨htxs, houts, hkeys⟩, fun name => ?_⟩
  unfold aliasHistory
  rw [haliases]

namespace Devnet

/-- A block of the main line whose coinbase pays a script: it adds little to the
scratchpad. -/
def paidToScript (height : Nat) : Block :=
  { mainBlock height with
    minerTx := { coinbase height 1 0 [] with vout := [⟨reward (emitted height), .toScript [] []⟩] } }

/-- Block 60 spends the genesis coinbase. Block 61 lists a transaction nobody
has, and is refused after its coinbase was recorded. Then another line wins. -/
def refusedThenReorganised : List Event :=
  ((List.range 59).map fun k => .newBlock (paidToScript (k + 1))) ++
    [.incomingTx [9, 0, 1, 0] false, .newBlock block60,
      .newBlock (block 61 61 60 (coinbase 61 1 0 []) [spendId 7]),
      .newBlock (altBlock 60 59), .newBlock (altBlock 61 160)]

end Devnet

/-- A node the calls lead to, and what was seen of it. -/
theorem Devnet.exists_of_run {checkpoints : Checkpoints} {evs : List Event} {P : Node → Bool}
    (h : (Devnet.run checkpoints evs).elim false P = true) :
    ∃ n, Reachable Devnet.env n ∧ P n = true := by
  cases hrun : Devnet.run checkpoints evs with
  | none =>
    rw [hrun] at h
    cases h
  | some n =>
    rw [hrun] at h
    exact ⟨n, reachable_of_runFromGenesis hrun, h⟩

/-- A refused block's coinbase stops the pop of the block below it, behind the
key images: the block stays, its image is free. -/
theorem spent_image_freed : ∃ n, Reachable Devnet.env n ∧ ¬ NoDoubleSpend n.chain := by
  have heval : (Devnet.run ∅ Devnet.refusedThenReorganised).elim false (fun n =>
      decide ((1 : KeyImage) ∈ chainImages n.chain.mBlocks) &&
        !n.chain.mSpentKeys.contains 1) = true := by
    decide +kernel
  obtain ⟨n, hreach, hn⟩ := Devnet.exists_of_run heval
  rw [Bool.and_eq_true, decide_eq_true_iff, Bool.not_eq_true'] at hn
  obtain ⟨hspent, hfree⟩ := hn
  refine ⟨n, hreach, fun h => ?_⟩
  have hknown := Std.ExtTreeSet.mem_iff_contains.1 (h.known 1 hspent)
  rw [hfree] at hknown
  cases hknown

end DarknetSpace
