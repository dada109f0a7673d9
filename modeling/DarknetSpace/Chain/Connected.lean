import DarknetSpace.Chain.Unpushed

/-!
# A block that was added

`handle_block_to_main_chain` returned `true`: what it must have gone through,
and the storage it left, as plain data. Everything later in the development
that follows from a block being accepted is read off `Connected`.

The fields name the states in between: the coinbase is recorded first, then the block's
transactions are taken from the pool one by one (`TxsTaken`), and at the end the entry
is appended (`Connected.entry`). What is read off it: the chain has one block more and
the others keep all but their flags (`Connected.forgetFlags_eq`), the index has one id
more (`Connected.index`), and the writes that are not named leave everything else alone
(`Connected.frame`).
-/

namespace DarknetSpace

open StateExn

/-- The run of `handle_block_to_main_chain` that took `n` to `n'` by adding
`bl`. -/
structure Connected (env : Env) (now : Nat) (bl : Block) (id : Hash) (n n' : Node) where
  coinbase : TransactionEntry
  /-- The storage with the coinbase's alias written, and with the coinbase
  recorded. -/
  sa : Storage
  s₁ : Storage
  taken : List TakenTx
  /-- The node with every transaction recorded. -/
  m : Node
  baseReward : UInt64
  donationTotal : UInt64
  pad : List Hash
  header : checkBlockHeader env now n.chain bl = none
  form : checkBlockForm (n.chain.setCheckpointZone n.chain.mBlocks.length) bl id
    n.chain.mBlocks.length = true
  recorded : TxRecorded env bl.minerTx (getTransactionHash env bl.minerTx)
    ⟨n.chain.mBlocks.length, 0⟩ (n.chain.setCheckpointZone n.chain.mBlocks.length) sa s₁ coinbase
  txs : TxsTaken env now 0 bl.txHashes { n with chain := s₁ } taken m
  reward : validateMinerTransaction env m.chain.mBlocks bl (cumulativeBlockSize env bl taken)
    (feeSummary taken) (alreadyGeneratedCoins m.chain.mBlocks) =
      .ok (some (baseReward, donationTotal))
  fresh : id ∉ m.chain.mBlocksIndex
  scratchpad : pushBlockScratchpadData env bl m.chain.mScratchpad = .ok pad
  appended : appendBlock env id (newBlockEntry env m.chain bl coinbase taken baseReward donationTotal)
    m.chain = .ok ⟨⟩ n'.chain
  node : n' = { m with chain := n'.chain }

/-- What a successful end of a push has written: the scratchpad, the block and its index entry. -/
theorem appendBlock_ok {env : Env} {id : Hash} {bei : BlockEntry} {s s' : Storage}
    (h : appendBlock env id bei s = .ok ⟨⟩ s') :
    ∃ pad, pushBlockScratchpadData env bei.bl s.mScratchpad = .ok pad ∧
      (s.mBlocksIndex.length = s.mBlocks.length →
        s' = Storage.updateNextComulativeSizeLimit
          { s with
            mBlocksIndex := s.mBlocksIndex ++ [id]
            mScratchpad := pad
            mBlocks := s.mBlocks ++ [bei] }) := by
  unfold appendBlock at h
  rw [bind_of_ok (modify_apply _ s)] at h
  obtain ⟨_, s₁, hpad, h⟩ := bind_eq_ok.1 h
  rw [bind_of_ok (modify_apply _ s₁)] at h
  cases hp : pushBlockScratchpadData env bei.bl s.mScratchpad with
  | error e =>
    rw [appendScratchpad_of_error (s := { s with mBlocksIndex := s.mBlocksIndex ++ [id] }) hp] at hpad
    cases hpad
  | ok pad =>
    refine ⟨pad, rfl, fun hsync => ?_⟩
    rw [appendScratchpad_of_ok (s := { s with mBlocksIndex := s.mBlocksIndex ++ [id] }) hp] at hpad
    cases hpad
    rw [bind_of_ok (fixBlocksIndex_of_length_eq (by simp [hsync]))] at h
    cases h
    rfl

/-- The end of a push succeeds when the scratchpad can be extended and the index is in step. -/
theorem appendBlock_of_scratchpad {env : Env} {id : Hash} {bei : BlockEntry} {s : Storage}
    {pad : List Hash} (hpad : pushBlockScratchpadData env bei.bl s.mScratchpad = .ok pad)
    (hsync : s.mBlocksIndex.length = s.mBlocks.length) :
    ∃ s', appendBlock env id bei s = .ok ⟨⟩ s' := by
  unfold appendBlock
  rw [bind_of_ok (modify_apply _ _), bind_of_ok (appendScratchpad_of_ok
    (s := { s with mBlocksIndex := s.mBlocksIndex ++ [id] }) hpad), bind_of_ok (modify_apply _ _),
    bind_of_ok (fixBlocksIndex_of_length_eq (by simp [hsync]))]
  exact ⟨_, rfl⟩

/-- A push that reached its end: the coinbase was entered, then the block was appended. -/
theorem finishBlock_added {env : Env} {now : Nat} {bl : Block} {id : Hash}
    {coinbase : TransactionEntry} {taken : List TakenTx} {m n' : Node}
    (h : finishBlock env now bl id coinbase taken m = .ok .added n') :
    ∃ baseReward donationTotal,
      validateMinerTransaction env m.chain.mBlocks bl (cumulativeBlockSize env bl taken)
        (feeSummary taken) (alreadyGeneratedCoins m.chain.mBlocks) =
          .ok (some (baseReward, donationTotal)) ∧
      id ∉ m.chain.mBlocksIndex ∧
      appendBlock env id
        (newBlockEntry env m.chain bl coinbase taken baseReward donationTotal) m.chain =
          .ok ⟨⟩ n'.chain ∧
      n' = { m with chain := n'.chain } := by
  unfold finishBlock at h
  obtain ⟨v, m₁, hval, h⟩ := bind_eq_ok.1 h
  cases hv : validateMinerTransaction env m.chain.mBlocks bl (cumulativeBlockSize env bl taken)
      (feeSummary taken) (alreadyGeneratedCoins m.chain.mBlocks) with
  | error e => rw [readChain_of_error hv] at hval; cases hval
  | ok v' =>
    rw [readChain_of_ok hv] at hval
    cases hval
    cases v with
    | none =>
      obtain ⟨_, _, _, h⟩ := bind_eq_ok.1 h
      cases h
    | some v =>
      obtain ⟨baseReward, donationTotal⟩ := v
      simp only at h
      rw [bind_of_ok (get_apply m)] at h
      split at h
      · obtain ⟨_, _, _, h⟩ := bind_eq_ok.1 h
        cases h
      · next hfresh =>
        cases happ : appendBlock env id
            (newBlockEntry env m.chain bl coinbase taken baseReward donationTotal) m.chain with
        | error e s' =>
          rw [bind_of_error (onChain_of_error happ)] at h
          cases h
        | ok u s' =>
          rw [bind_of_ok (onChain_of_ok happ)] at h
          cases h
          exact ⟨baseReward, donationTotal, rfl, hfresh, happ, rfl⟩

/-- `handle_block_to_main_chain` returned `true`. -/
theorem handleBlockToMainChain_added {env : Env} {now : Nat} {bl : Block} {id : Hash} {n n' : Node}
    (h : handleBlockToMainChain env now bl id n = .ok .added n') :
    Nonempty (Connected env now bl id n n') := by
  unfold handleBlockToMainChain at h
  rw [bind_of_ok (get_apply n)] at h
  cases hhead : checkBlockHeader env now n.chain bl with
  | some v =>
    simp only [hhead] at h
    -- no check of the header answers "added"
    unfold checkBlockHeader at hhead
    split at hhead
    · cases hhead; cases h
    · split at hhead
      · cases hhead; cases h
      · split at hhead
        · cases hhead; cases h
        · split at hhead
          · cases hhead; cases h
          · cases hhead
  | none =>
    simp only [hhead] at h
    rw [bind_of_ok (onChain_modify _ n), bind_of_ok (get_apply _)] at h
    split at h
    · next hform =>
      unfold connectBlock at h
      rw [bind_of_ok (get_apply _)] at h
      obtain ⟨txe, s₁, sa, hadd, hrec⟩ | ⟨s', hadd, -⟩ | ⟨e, s', hadd, -⟩ :=
        addTransactionFromBlock_cases env bl.minerTx (getTransactionHash env bl.minerTx)
          n.chain.mBlocks.length 0 (n.chain.setCheckpointZone n.chain.mBlocks.length)
      · have hon := onChain_of_ok
          (n := { n with chain := n.chain.setCheckpointZone n.chain.mBlocks.length }) hadd
        obtain ⟨_, _, hon', h⟩ := bind_eq_ok.1 h
        cases hon.symm.trans hon'
        simp only at h
        have hlen : s₁.mBlocks.length = n.chain.mBlocks.length := by
          have := Storage.length_of_frame hrec.frame
          exact this
        have start : Recorded env bl 0 s₁ := by
          refine ⟨⟨0, ?_⟩, by simp⟩
          rw [hrec.transactions, hlen, Std.ExtTreeMap.getElem?_insert_self]
        obtain ⟨taken, m, htake, htaken⟩ | ⟨e, m, htake, -⟩ :=
          takeTransactions_cases now id (n := { n with chain := s₁ }) start List.drop_zero
        · have hfin : finishBlock env now bl id txe taken m = .ok .added n' := by
            rw [bind_of_ok htake] at h
            exact h
          obtain ⟨baseReward, donationTotal, hval, hfresh, happ, hnode⟩ := finishBlock_added hfin
          obtain ⟨pad, hpad, -⟩ := appendBlock_ok happ
          exact ⟨{
            coinbase := txe
            sa, s₁, taken, m, baseReward, donationTotal, pad
            header := hhead
            form := hform
            recorded := hrec
            txs := htaken
            reward := hval
            fresh := hfresh
            scratchpad := hpad
            appended := happ
            node := hnode }⟩
        · rw [bind_of_error htake] at h
          cases h
      · have hon := onChain_of_ok
          (n := { n with chain := n.chain.setCheckpointZone n.chain.mBlocks.length }) hadd
        obtain ⟨_, _, hon', h⟩ := bind_eq_ok.1 h
        cases hon.symm.trans hon'
        cases h
      · have hon := onChain_of_error
          (n := { n with chain := n.chain.setCheckpointZone n.chain.mBlocks.length }) hadd
        obtain ⟨_, _, hon', h⟩ := bind_eq_ok.1 h
        cases hon.symm.trans hon'
    · cases h

namespace Connected

variable {env : Env} {now : Nat} {bl : Block} {id : Hash} {n n' : Node}

/-- The entry the block got. -/
def entry (c : Connected env now bl id n n') : BlockEntry :=
  newBlockEntry env c.m.chain bl c.coinbase c.taken c.baseReward c.donationTotal

theorem entry_transactions (c : Connected env now bl id n n') :
    c.entry.transactions = c.coinbase :: c.taken.map (·.entry) := rfl

theorem coinbase_tx (c : Connected env now bl id n n') : c.coinbase.tx = bl.minerTx := by
  rw [c.recorded.entry]
  rfl

/-- The coinbase as it was recorded. -/
theorem coinbase_recorded (c : Connected env now bl id n n') :
    TxRecorded env c.coinbase.tx (getTransactionHash env c.coinbase.tx)
      ⟨n.chain.mBlocks.length, UInt16.ofNat 0⟩ (n.chain.setCheckpointZone n.chain.mBlocks.length)
      c.sa c.s₁ c.coinbase := by
  rw [c.coinbase_tx]
  exact c.recorded

/-- A coinbase has one `txin_gen` as its only input. -/
theorem coinbase_vin (c : Connected env now bl id n n') : ∃ g, bl.minerTx.vin = [.gen g] := by
  have hform := c.form
  unfold checkBlockForm prevalidateMinerTransaction at hform
  rw [Bool.and_eq_true] at hform
  have hpre := hform.2
  split at hpre
  · next g hv => exact ⟨g, hv⟩
  · cases hpre

theorem isCoinbase_minerTx (c : Connected env now bl id n n') :
    isCoinbase bl.minerTx.toTransactionPrefix = true := by
  obtain ⟨g, hv⟩ := c.coinbase_vin
  rw [isCoinbase, hv]

theorem frame (c : Connected env now bl id n n') :
    c.m.chain.frame = (n.chain.setCheckpointZone n.chain.mBlocks.length).frame :=
  c.txs.frame.trans c.recorded.frame

/-- The block's transactions touched the blocks below it in their flags only. -/
theorem forgetFlags_eq (c : Connected env now bl id n n') :
    forgetFlags c.m.chain.mBlocks = forgetFlags n.chain.mBlocks := by
  have := congrArg Storage.mBlocks c.frame
  exact this

/-- No block was added while the transactions were taken. -/
theorem length (c : Connected env now bl id n n') :
    c.m.chain.mBlocks.length = n.chain.mBlocks.length := by
  have := Storage.length_of_frame c.frame
  exact this

/-- The block index was not written while the transactions were taken. -/
theorem index (c : Connected env now bl id n n') :
    c.m.chain.mBlocksIndex = n.chain.mBlocksIndex := by
  have := congrArg Storage.mBlocksIndex c.frame
  exact this

/-- The storage after the block, when the block index was in step before it. -/
theorem chain_eq (c : Connected env now bl id n n')
    (hsync : n.chain.mBlocksIndex.length = n.chain.mBlocks.length) :
    n'.chain = Storage.updateNextComulativeSizeLimit
      { c.m.chain with
        mBlocksIndex := n.chain.mBlocksIndex ++ [id]
        mScratchpad := c.pad
        mBlocks := c.m.chain.mBlocks ++ [c.entry] } := by
  obtain ⟨pad, hpad, hstate⟩ := appendBlock_ok c.appended
  have hp : pad = c.pad := Except.ok.inj (hpad.symm.trans c.scratchpad)
  rw [hstate (by rw [c.index, c.length, hsync]), c.index, hp]
  rfl

end Connected

end DarknetSpace
