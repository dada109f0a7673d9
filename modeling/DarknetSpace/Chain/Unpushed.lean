import DarknetSpace.Chain.Push
import DarknetSpace.Chain.Record

/-!
# A block that is not there yet cannot be purged

`handle_block_to_main_chain` records a block's transactions at the height the
block *will* have, and appends the block last. Until then every recorded
position points one past the end of `m_blocks`, and the undo reads each
transaction back through its position: its very first read throws. So once the
coinbase is recorded, the function has two ways out, "added" and an exception,
and none of its `return false` is ever reached.

So `false` from the end of a push means that something was thrown on the way.
`Abandoned` is what is left then: a coinbase that is recorded, perhaps some
transactions, and no block. `connectBlock_cases` lists the ways out with the states they
leave; every property of a refused push is proved from there.
-/

namespace DarknetSpace

open StateExn

/-! ## The undo of an unpushed block -/

/-- The coinbase and the first `k` transactions of `bl` are recorded at the
height after the last block. -/
structure Recorded (env : Env) (bl : Block) (k : Nat) (s : Storage) : Prop where
  coinbase : ∃ i, s.mTransactions[getTransactionHash env bl.minerTx]? =
    some ⟨s.mBlocks.length, i⟩
  taken : ∀ id ∈ bl.txHashes.take k, ∃ i, s.mTransactions[id]? = some ⟨s.mBlocks.length, i⟩

theorem transactionByIndex_unpushed (s : Storage) (i : UInt16) :
    s.transactionByIndex ⟨s.mBlocks.length, i⟩ = .error .indexOverflow := by
  simp [Storage.transactionByIndex, Storage.blockAt]
  rfl

theorem purgeTransaction_unpushed {env : Env} {now : Nat} {id : Hash} {n : Node} {i : UInt16}
    (h : n.chain.mTransactions[id]? = some ⟨n.chain.mBlocks.length, i⟩) :
    purgeTransactionFromBlockchain env now id n = .error .indexOverflow n := by
  unfold purgeTransactionFromBlockchain
  rw [bind_of_ok (get_apply n)]
  simp only [h]
  exact bind_of_error (reads_of_error (transactionByIndex_unpushed n.chain i))

theorem purgeBlockData_unpushed {env : Env} {now : Nat} {bl : Block} {k : Nat} {n : Node}
    (h : Recorded env bl k n.chain) (hk : k ≤ bl.txHashes.length) :
    purgeBlockDataFromBlockchain env now bl k n = .error .indexOverflow n := by
  have throws : ∀ id rest, (∃ i, n.chain.mTransactions[id]? = some ⟨n.chain.mBlocks.length, i⟩) →
      purgeTransactions env now (id :: rest) n = .error .indexOverflow n := by
    rintro id rest ⟨i, hi⟩
    exact bind_of_error (purgeTransaction_unpushed hi)
  unfold purgeBlockDataFromBlockchain
  rw [if_neg (by omega)]
  -- the last processed transaction is purged first; without one, the coinbase
  cases hr : (bl.txHashes.take k).reverse with
  | nil => exact throws _ [] h.coinbase
  | cons id rest =>
    refine throws id _ (h.taken id ?_)
    rw [← List.mem_reverse, hr]
    exact List.mem_cons_self

/-! ## The transactions of the block -/

@[simp] theorem prunedTx_toPrefix (zone : Bool) (tx : Transaction) :
    (prunedTx zone tx).toTransactionPrefix = tx.toTransactionPrefix := by
  unfold prunedTx
  split <;> rfl

/-- Every transaction of a block was taken and recorded, from the `processed`-th
on. -/
inductive TxsTaken (env : Env) (now : Nat) : Nat → List Hash → Node → List TakenTx → Node → Prop
  | nil {processed : Nat} {n : Node} : TxsTaken env now processed [] n [] n
  | cons {processed : Nat} {txId : Hash} {rest : List Hash} {n n' : Node} {txd : TxDetails}
      {pool : TxMemoryPool} {used : Nat} {sa s' : Storage} {entry : TransactionEntry}
      {taken : List TakenTx}
      (take : n.pool.takeTx env txId = some (txd, pool))
      (inputs : n.chain.checkTxInputs env now (prunedTx n.chain.mIsInCheckpointZone txd.tx) =
        .ok (some used))
      (recorded : TxRecorded env (prunedTx n.chain.mIsInCheckpointZone txd.tx) txId
        ⟨n.chain.mBlocks.length, UInt16.ofNat (processed + 1)⟩ n.chain sa s' entry)
      (tail : TxsTaken env now (processed + 1) rest { n with chain := s', pool } taken n') :
      TxsTaken env now processed (txId :: rest) n
        ({ entry, fee := txd.fee, blobSize := txd.blobSize } :: taken) n'

theorem TxRecorded.frame {env : Env} {tx : Transaction} {txId : Hash} {idx : TransactionIndex}
    {s sa s' : Storage} {txe : TransactionEntry} (h : TxRecorded env tx txId idx s sa s' txe) :
    s'.frame = s.frame := by
  rw [h.state, ← Storage.frame_of_withoutAliases (processBlockchainTxExtra_frame h.extra)]
  unfold recordTx Storage.frame
  simp only [forgetFlags_markSpent]

theorem TxRecorded.transactions {env : Env} {tx : Transaction} {txId : Hash}
    {idx : TransactionIndex} {s sa s' : Storage} {txe : TransactionEntry}
    (h : TxRecorded env tx txId idx s sa s' txe) :
    s'.mTransactions = s.mTransactions.insert txId idx := by
  have ha : sa.withoutAliases.mTransactions = s.withoutAliases.mTransactions := by
    rw [processBlockchainTxExtra_frame h.extra]
  rw [h.state]
  exact congrArg (fun m => m.insert txId idx) ha

/-- Recording one more transaction keeps the earlier ones recorded. -/
theorem Recorded.step {env : Env} {bl : Block} {k : Nat} {tx : Transaction} {txId : Hash}
    {i : UInt16} {s sa s' : Storage} {txe : TransactionEntry} (h : Recorded env bl k s)
    (hrec : TxRecorded env tx txId ⟨s.mBlocks.length, i⟩ s sa s' txe)
    (hid : bl.txHashes[k]? = some txId) : Recorded env bl (k + 1) s' := by
  have hlen : s'.mBlocks.length = s.mBlocks.length := Storage.length_of_frame hrec.frame
  have keep : ∀ id : Hash,
      (∃ j, s.mTransactions[id]? = some (⟨s.mBlocks.length, j⟩ : TransactionIndex)) →
      ∃ j, s'.mTransactions[id]? = some (⟨s'.mBlocks.length, j⟩ : TransactionIndex) := by
    rintro id ⟨j, hj⟩
    rw [hrec.transactions, Std.ExtTreeMap.getElem?_insert, hlen]
    split
    · exact ⟨i, rfl⟩
    · exact ⟨j, hj⟩
  refine ⟨keep _ h.coinbase, fun id hmem => ?_⟩
  rw [List.take_add_one, hid, List.mem_append] at hmem
  rcases hmem with hmem | hmem
  · exact keep id (h.taken id hmem)
  · obtain rfl : id = txId := by simpa using hmem
    refine ⟨i, ?_⟩
    rw [hrec.transactions, hlen, Std.ExtTreeMap.getElem?_insert_self]

theorem Recorded.congr {env : Env} {bl : Block} {k : Nat} {s s' : Storage}
    (h : Recorded env bl k s) (hs : s'.frame = s.frame)
    (ht : s'.mTransactions = s.mTransactions) : Recorded env bl k s' := by
  constructor
  · rw [ht, Storage.length_of_frame hs]
    exact h.coinbase
  · rw [ht, Storage.length_of_frame hs]
    exact h.taken

/-- What an exception in the middle of a block leaves: the frame, and the
coinbase still in the transaction index. -/
structure LeftBehind (env : Env) (bl : Block) (s s' : Storage) : Prop where
  frame : s'.frame = s.frame
  coinbase : s'.mTransactions.contains (getTransactionHash env bl.minerTx)

theorem Recorded.leftBehind {env : Env} {bl : Block} {k : Nat} {s s' : Storage}
    (h : Recorded env bl k s) (hs : s'.frame = s.frame)
    (ht : s'.mTransactions = s.mTransactions) : LeftBehind env bl s s' := by
  obtain ⟨i, hi⟩ := h.coinbase
  refine ⟨hs, ?_⟩
  rw [ht, Std.ExtTreeMap.contains_eq_isSome_getElem?, hi]
  rfl

theorem returnToPool_chain (env : Env) (now : Nat) (tx : Transaction) (n : Node) :
    (∃ pool, returnToPool env now tx n = .ok ⟨⟩ { n with pool }) ∨
      ∃ e, returnToPool env now tx n = .error e n := by
  unfold returnToPool
  split
  · next v pool _ => exact .inl ⟨pool, rfl⟩
  · next e _ => exact .inr ⟨e, rfl⟩

/-- Giving a transaction back and then undoing the block always throws. -/
theorem giveBack_throws {env : Env} {now : Nat} {bl : Block} {k : Nat} {n : Node}
    {α : Type} {rest : Bool → NodeM α} (tx : Transaction)
    (h : Recorded env bl k n.chain) (hk : k ≤ bl.txHashes.length) :
    ∃ e n', (do
      returnToPool env now tx
      let r ← purgeBlockDataFromBlockchain env now bl k
      rest r) n = .error e n' ∧ n'.chain = n.chain := by
  obtain ⟨pool, hp⟩ | ⟨e, he⟩ := returnToPool_chain env now tx n
  · refine ⟨.indexOverflow, { n with pool }, ?_, rfl⟩
    rw [bind_of_ok hp]
    exact bind_of_error (purgeBlockData_unpushed (n := { n with pool }) h hk)
  · exact ⟨e, n, bind_of_error he, rfl⟩

/-- The loop over the block's transactions takes them all, or throws. -/
theorem takeTransactions_cases {env : Env} (now : Nat) {bl : Block} (id : Hash) {k : Nat}
    {rest : List Hash} {n : Node} (h : Recorded env bl k n.chain)
    (hrest : bl.txHashes.drop k = rest) :
    (∃ taken n', takeTransactions env now bl id k rest n = .ok (some taken) n' ∧
      TxsTaken env now k rest n taken n') ∨
    ∃ e n', takeTransactions env now bl id k rest n = .error e n' ∧
      LeftBehind env bl n.chain n'.chain := by
  induction rest generalizing k n with
  | nil => exact .inl ⟨[], n, rfl, .nil⟩
  | cons txId rest ih =>
    have hk : k < bl.txHashes.length := by
      by_contra hge
      rw [List.drop_eq_nil_of_le (by omega)] at hrest
      cases hrest
    have hid : bl.txHashes[k]? = some txId := by
      rw [← List.head?_drop, hrest]
      rfl
    have hrest' : bl.txHashes.drop (k + 1) = rest := by
      rw [← List.tail_drop, hrest]
      rfl
    unfold takeTransactions
    rw [bind_of_ok (get_apply n)]
    cases htake : n.pool.takeTx env txId with
    | none =>
      -- the block is not in `m_blocks` yet, so the undo throws and leaves what was written
      exact .inr ⟨_, n, bind_of_error (purgeBlockData_unpushed h hk.le), h.leftBehind rfl rfl⟩
    | some p =>
      obtain ⟨txd, pool⟩ := p
      simp only
      rw [bind_of_ok (set_apply n { n with pool })]
      have hpool : Recorded env bl k { n with pool }.chain := h
      cases hin : n.chain.checkTxInputs env now (prunedTx n.chain.mIsInCheckpointZone txd.tx) with
      | error e =>
        exact .inr ⟨e, { n with pool }, bind_of_error (readChain_of_error hin),
          h.leftBehind rfl rfl⟩
      | ok used =>
        rw [bind_of_ok (readChain_of_ok hin)]
        cases used with
        | none =>
          obtain ⟨e, n', he, hc⟩ := giveBack_throws
            (prunedTx n.chain.mIsInCheckpointZone txd.tx) hpool hk.le
          exact .inr ⟨e, n', he, h.leftBehind (by rw [hc]) (by rw [hc])⟩
        | some used =>
          simp only
          obtain ⟨entry, s', sa, hadd, hrec⟩ | ⟨s', hadd, hsame⟩ | ⟨e, s', hadd, hsame⟩ :=
            addTransactionFromBlock_cases env (prunedTx n.chain.mIsInCheckpointZone txd.tx) txId
              n.chain.mBlocks.length (UInt16.ofNat (k + 1)) n.chain
          · rw [bind_of_ok (onChain_of_ok (n := { n with pool }) hadd)]
            obtain ⟨taken, n', hok, htaken⟩ | ⟨e, n', herr, hleft⟩ :=
              ih (n := { n with chain := s', pool }) (h.step hrec hid) hrest'
            · exact .inl ⟨_, n', by simp only [bind_of_ok hok]; rfl, .cons htake hin hrec htaken⟩
            · exact .inr ⟨e, n', bind_of_error herr, hleft.frame.trans hrec.frame, hleft.coinbase⟩
          · have hframe : s'.frame = n.chain.frame := by
              have := addTransactionFromBlock_frame env (prunedTx n.chain.mIsInCheckpointZone txd.tx)
                txId n.chain.mBlocks.length (UInt16.ofNat (k + 1)) n.chain.frame n.chain rfl
              rwa [hadd] at this
            rw [bind_of_ok (onChain_of_ok (n := { n with pool }) hadd)]
            obtain ⟨e, n', he, hc⟩ := giveBack_throws (n := { n with chain := s', pool })
              (prunedTx n.chain.mIsInCheckpointZone txd.tx) (h.congr hframe hsame.1) hk.le
            exact .inr ⟨e, n', he, h.leftBehind (by rw [hc]; exact hframe)
              (by rw [hc]; exact hsame.1)⟩
          · have hframe : s'.frame = n.chain.frame := by
              have := addTransactionFromBlock_frame env (prunedTx n.chain.mIsInCheckpointZone txd.tx)
                txId n.chain.mBlocks.length (UInt16.ofNat (k + 1)) n.chain.frame n.chain rfl
              rwa [hadd] at this
            exact .inr ⟨e, _, bind_of_error (onChain_of_error (n := { n with pool }) hadd),
              h.leftBehind hframe hsame.1⟩

theorem TxsTaken.length {env : Env} {now k : Nat} {ids : List Hash} {n n' : Node}
    {taken : List TakenTx} (h : TxsTaken env now k ids n taken n') : taken.length = ids.length := by
  induction h with
  | nil => rfl
  | cons _ _ _ _ ih => rw [List.length_cons, List.length_cons, ih]

theorem TxsTaken.frame {env : Env} {now k : Nat} {ids : List Hash} {n n' : Node}
    {taken : List TakenTx} (h : TxsTaken env now k ids n taken n') :
    n'.chain.frame = n.chain.frame := by
  induction h with
  | nil => rfl
  | cons _ _ hrec _ ih => exact ih.trans hrec.frame

theorem TxsTaken.recorded {env : Env} {now k : Nat} {bl : Block} {ids : List Hash} {n n' : Node}
    {taken : List TakenTx} (h : TxsTaken env now k ids n taken n')
    (hrec : Recorded env bl k n.chain) (hids : bl.txHashes.drop k = ids) :
    Recorded env bl bl.txHashes.length n'.chain := by
  induction h with
  | @nil k n =>
    have hk : bl.txHashes.length ≤ k := List.drop_eq_nil_iff.1 hids
    refine ⟨hrec.coinbase, fun id hid => hrec.taken id ?_⟩
    rw [List.take_length] at hid
    rwa [List.take_of_length_le hk]
  | @cons k txId rest n n' _ _ _ _ _ _ _ _ _ hr _ ih =>
    refine ih (hrec.step hr ?_) ?_
    · rw [← List.head?_drop, hids]
      rfl
    · rw [← List.tail_drop, hids]
      rfl

/-! ## The whole block -/

/-- An exception left the connection of a block: its coinbase is still in the
transaction index, or the block itself was already appended. -/
structure Abandoned (env : Env) (bl : Block) (s s' : Storage) : Prop where
  invalid : s'.mInvalidBlocks = s.mInvalidBlocks
  trace : s'.mTransactions.contains (getTransactionHash env bl.minerTx) ∨
    s'.mBlocks.length = s.mBlocks.length + 1

theorem LeftBehind.abandoned {env : Env} {bl : Block} {s s' : Storage}
    (h : LeftBehind env bl s s') : Abandoned env bl s s' :=
  ⟨by have := congrArg Storage.mInvalidBlocks h.frame; exact this, .inl h.coinbase⟩

theorem appendBlock_cases (env : Env) (id : Hash) (bei : BlockEntry) (s : Storage) :
    (∃ s', appendBlock env id bei s = .ok ⟨⟩ s' ∧ s'.mInvalidBlocks = s.mInvalidBlocks) ∨
    ∃ e s', appendBlock env id bei s = .error e s' ∧ s'.mInvalidBlocks = s.mInvalidBlocks ∧
      (s'.mTransactions = s.mTransactions ∨ s'.mBlocks.length = s.mBlocks.length + 1) := by
  unfold appendBlock
  rw [bind_of_ok (modify_apply _ s)]
  cases hpad : pushBlockScratchpadData env bei.bl s.mScratchpad with
  | error e => exact .inr ⟨e, _, bind_of_error (appendScratchpad_of_error
      (s := { s with mBlocksIndex := s.mBlocksIndex ++ [id] }) hpad), rfl, .inl rfl⟩
  | ok pad =>
    rw [bind_of_ok (appendScratchpad_of_ok
      (s := { s with mBlocksIndex := s.mBlocksIndex ++ [id] }) hpad), bind_of_ok (modify_apply _ _)]
    generalize hs : ({ { s with mBlocksIndex := s.mBlocksIndex ++ [id] } with
      mScratchpad := pad, mBlocks := s.mBlocks ++ [bei] } : Storage) = s₁
    have keeps := fixBlocksIndex_withoutCaches env _ s₁ rfl
    cases hfix : fixBlocksIndex env s₁ with
    | error e s' =>
      rw [hfix] at keeps
      have hb : s'.mBlocks = s₁.mBlocks := by have := congrArg Storage.mBlocks keeps; exact this
      have hi := congrArg Storage.mInvalidBlocks keeps
      subst hs
      exact .inr ⟨e, s', bind_of_error hfix, hi, .inr (by simp [hb])⟩
    | ok b s' =>
      rw [hfix] at keeps
      have hi := congrArg Storage.mInvalidBlocks keeps
      subst hs
      exact .inl ⟨_, bind_of_ok hfix, hi⟩

/-- Behind the transactions, too, there is only "added" and an exception. -/
theorem finishBlock_cases {env : Env} (now : Nat) {bl : Block} (id : Hash)
    (coinbase : TransactionEntry) {taken : List TakenTx} {n : Node}
    (h : Recorded env bl bl.txHashes.length n.chain) (hlen : taken.length = bl.txHashes.length) :
    (∃ n', finishBlock env now bl id coinbase taken n = .ok .added n' ∧
      n'.chain.mInvalidBlocks = n.chain.mInvalidBlocks) ∨
    ∃ e n', finishBlock env now bl id coinbase taken n = .error e n' ∧
      Abandoned env bl n.chain n'.chain := by
  have stays : Abandoned env bl n.chain n.chain := (h.leftBehind rfl rfl).abandoned
  have purge : purgeBlockDataFromBlockchain env now bl taken.length n = .error .indexOverflow n := by
    rw [hlen]
    exact purgeBlockData_unpushed h le_rfl
  unfold finishBlock
  cases hval : validateMinerTransaction env n.chain.mBlocks bl (cumulativeBlockSize env bl taken)
      (feeSummary taken) (alreadyGeneratedCoins n.chain.mBlocks) with
  | error e => exact .inr ⟨e, n, bind_of_error (readChain_of_error hval), stays⟩
  | ok v =>
    rw [bind_of_ok (readChain_of_ok hval)]
    cases v with
    | none => exact .inr ⟨_, n, bind_of_error purge, stays⟩
    | some v =>
      simp only
      rw [bind_of_ok (get_apply n)]
      split
      · exact .inr ⟨_, n, bind_of_error purge, stays⟩
      · obtain ⟨s', happ, hi⟩ | ⟨e, s', happ, hi, htrace⟩ := appendBlock_cases env id
          (newBlockEntry env n.chain bl coinbase taken v.1 v.2) n.chain
        · exact .inl ⟨_, bind_of_ok (onChain_of_ok happ), hi⟩
        · refine .inr ⟨e, _, bind_of_error (onChain_of_error happ), hi, ?_⟩
          refine htrace.imp_left fun ht => ?_
          simp only [ht]
          exact stays.trace.resolve_right (by simp)

/-- Once its coinbase is recorded, a block is added or leaves by an exception. -/
theorem connectBlock_cases (env : Env) (now : Nat) (bl : Block) (id : Hash) (n : Node) :
    (∃ txe s' sa, addTransactionFromBlock env bl.minerTx (getTransactionHash env bl.minerTx)
        n.chain.mBlocks.length 0 n.chain = .ok (some txe) s' ∧
      TxRecorded env bl.minerTx (getTransactionHash env bl.minerTx) ⟨n.chain.mBlocks.length, 0⟩
        n.chain sa s' txe ∧
      ((∃ n', connectBlock env now bl id n = .ok .added n' ∧
          n'.chain.mInvalidBlocks = n.chain.mInvalidBlocks) ∨
        ∃ e n', connectBlock env now bl id n = .error e n' ∧
          Abandoned env bl n.chain n'.chain)) ∨
    (∃ s', addTransactionFromBlock env bl.minerTx (getTransactionHash env bl.minerTx)
        n.chain.mBlocks.length 0 n.chain = .ok none s' ∧
      connectBlock env now bl id n = .ok .failed { n with chain := s' }) ∨
    ∃ e s', addTransactionFromBlock env bl.minerTx (getTransactionHash env bl.minerTx)
        n.chain.mBlocks.length 0 n.chain = .error e s' ∧
      connectBlock env now bl id n = .error e { n with chain := s' } := by
  unfold connectBlock
  rw [bind_of_ok (get_apply n)]
  obtain ⟨txe, s', sa, hadd, hrec⟩ | ⟨s', hadd, _⟩ | ⟨e, s', hadd, _⟩ :=
    addTransactionFromBlock_cases env bl.minerTx (getTransactionHash env bl.minerTx)
      n.chain.mBlocks.length 0 n.chain
  · refine .inl ⟨txe, s', sa, hadd, hrec, ?_⟩
    rw [bind_of_ok (onChain_of_ok hadd)]
    have hlen : s'.mBlocks.length = n.chain.mBlocks.length := Storage.length_of_frame hrec.frame
    have hinv : s'.mInvalidBlocks = n.chain.mInvalidBlocks := by
      have := congrArg Storage.mInvalidBlocks hrec.frame; exact this
    have start : Recorded env bl 0 s' := by
      refine ⟨⟨0, ?_⟩, by simp⟩
      rw [hrec.transactions, hlen, Std.ExtTreeMap.getElem?_insert_self]
    have moved {n' : Node} (h : Abandoned env bl s' n'.chain) : Abandoned env bl n.chain n'.chain :=
      ⟨h.invalid.trans hinv, by rw [← hlen]; exact h.trace⟩
    simp only
    obtain ⟨taken, n₁, htake, htaken⟩ | ⟨e, n₁, htake, hleft⟩ :=
      takeTransactions_cases now id (n := { n with chain := s' }) start List.drop_zero
    · rw [bind_of_ok htake]
      have hlen₁ : n₁.chain.mBlocks.length = s'.mBlocks.length := Storage.length_of_frame htaken.frame
      have hinv₁ : n₁.chain.mInvalidBlocks = s'.mInvalidBlocks := by
        have := congrArg Storage.mInvalidBlocks htaken.frame; exact this
      obtain ⟨n', hfin, hi⟩ | ⟨e, n', hfin, hab⟩ := finishBlock_cases now id txe
        (htaken.recorded start List.drop_zero) htaken.length
      · exact .inl ⟨n', hfin, hi.trans (hinv₁.trans hinv)⟩
      · exact .inr ⟨e, n', hfin, moved ⟨hab.invalid.trans hinv₁, by rw [← hlen₁]; exact hab.trace⟩⟩
    · exact .inr ⟨e, n₁, bind_of_error htake, moved hleft.abandoned⟩
  · exact .inr (.inl ⟨s', hadd, bind_of_ok (onChain_of_ok hadd)⟩)
  · exact .inr (.inr ⟨e, s', hadd, bind_of_error (onChain_of_error hadd)⟩)

end DarknetSpace
