import DarknetSpace.Pool.TxPool

/-!
# Choosing transactions for a block (`fill_block_template`)

The pool's entries are gone through in the order of their fee rate. An entry
whose inputs were checked before is taken at its word as long as the newest
block it refers to is still on the main chain; otherwise the inputs are checked
again, and the outcome is noted in the entry. Of the ready ones, those up to the
position with the best reward are taken.

`std::sort` leaves entries of equal rate in any order, so the sorted list is an
argument.

`FillState` is the variables of the loop, and `Filled` what the function returns: the
ids, the sizes and the fees. `FillState.Accounted` says that the sums in it are those of
the transactions that have been taken, and is kept by every turn.
-/

namespace DarknetSpace

namespace Storage

/-- `get_block_id_by_height`. -/
def getBlockIdByHeight (env : Env) (s : Storage) (height : Nat) : Hash :=
  match s.mBlocks[height]? with
  | none => nullHash
  | some e => getBlockHash env e.bl

/-- `have_tx_keyimges_as_spent`: an input of another type counts as spent. -/
def haveTxKeyimgesAsSpent (s : Storage) (tx : TransactionPrefix) : Bool :=
  tx.vin.any fun
    | .toKey _ _ kImage => s.haveTxKeyimgAsSpent kImage
    | _ => true

/-- What `check_tx_inputs` leaves in `*pmax_used_block_height`, whichever way it
ends. -/
def maxUsedLeft (env : Env) (now : Nat) (s : Storage) (txPrefixHash : Hash) :
    List Txin → List (List Signature) → Nat → Nat
  | .toKey amount keyOffsets kImage :: rest, sigs, maxUsed =>
    if keyOffsets = [] ∨ s.haveTxKeyimgAsSpent kImage ∨ (¬ s.mIsInCheckpointZone ∧ sigs.isEmpty) then
      maxUsed
    else
      match scanOutputkeysForIndexes env now s amount keyOffsets with
      | .ok (some ring) =>
        match checkTxInput env now s amount keyOffsets kImage txPrefixHash (sigs.headD []) maxUsed with
        | .ok (some m) => maxUsedLeft env now s txPrefixHash rest sigs.tail m
        | _ => max maxUsed ((ring.getLast?.map (·.2)).getD 0)
      | _ => maxUsed
  | _, _, maxUsed => maxUsed

end Storage

namespace TxMemoryPool

/-! ## Readiness -/

/-- The entry after its inputs were found wanting. -/
def markFailed (env : Env) (now : Nat) (chain : Storage) (txd : TxDetails) : TxDetails :=
  let height := (chain.getCurrentBlockchainHeight + 2 ^ 64 - 1) % 2 ^ 64
  { txd with
    maxUsedBlockHeight := chain.maxUsedLeft env now (getTransactionHash env txd.tx) txd.tx.vin
      txd.tx.signatures 0
    lastFailedHeight := height
    lastFailedId := chain.getBlockIdByHeight env height }

/-- The check of the inputs, as `is_transaction_ready_to_go` makes it, and the
one on key images behind it. -/
def recheck (env : Env) (now : Nat) (chain : Storage) (txd : TxDetails) :
    Except Exn (Bool × TxDetails) :=
  match chain.checkTxInputsWithId env now txd.tx with
  | .error e => .error e
  | .ok none => .ok (false, markFailed env now chain txd)
  | .ok (some (maxUsedBlockHeight, maxUsedBlockId)) =>
    .ok (!chain.haveTxKeyimgesAsSpent txd.tx.toTransactionPrefix,
      { txd with maxUsedBlockHeight, maxUsedBlockId })

/-- `is_transaction_ready_to_go`. -/
def isTransactionReadyToGo (env : Env) (now : Nat) (chain : Storage) (txd : TxDetails) :
    Except Exn (Bool × TxDetails) :=
  if txd.maxUsedBlockId = nullHash then
    -- not checked, lets try to check
    if txd.lastFailedId ≠ nullHash ∧ chain.getCurrentBlockchainHeight > txd.lastFailedHeight ∧
        txd.lastFailedId = chain.getBlockIdByHeight env txd.lastFailedHeight then .ok (false, txd)
    else recheck env now chain txd
  else if txd.maxUsedBlockHeight ≥ chain.getCurrentBlockchainHeight then .ok (false, txd)
  else if chain.getBlockIdByHeight env txd.maxUsedBlockHeight ≠ txd.maxUsedBlockId then
    if txd.lastFailedId = chain.getBlockIdByHeight env txd.lastFailedHeight then .ok (false, txd)
    else recheck env now chain txd
  else .ok (!chain.haveTxKeyimgesAsSpent txd.tx.toTransactionPrefix, txd)

/-! ## Key images of the block so far -/

/-- `have_key_images`; an input of another type ends the search. -/
def haveKeyImages (kImages : Std.ExtTreeSet KeyImage compare) : List Txin → Bool
  | [] => false
  | .toKey _ _ kImage :: rest =>
    if kImages.contains kImage then true else haveKeyImages kImages rest
  | _ :: _ => false

/-- `append_key_images`, up to the first one that is there already; its verdict
is not looked at. -/
def appendKeyImages (kImages : Std.ExtTreeSet KeyImage compare) :
    List Txin → Std.ExtTreeSet KeyImage compare
  | [] => kImages
  | .toKey _ _ kImage :: rest =>
    if kImages.contains kImage then kImages else appendKeyImages (kImages.insert kImage) rest
  | _ :: _ => kImages

/-! ## The loop -/

/-- The locals of `fill_block_template`; `ready` are the entries so far that are
not `NULL`, `best` those below `best_position`. -/
structure FillState where
  pool : TxMemoryPool
  kImages : Std.ExtTreeSet KeyImage compare
  ready : List Hash
  currentSize : Nat
  currentFee : UInt64
  bestMoney : UInt64
  best : List Hash
  totalSize : Nat
  fee : UInt64

def FillState.start (pool : TxMemoryPool) (bestMoney : UInt64) : FillState where
  pool
  kImages := ∅
  ready := []
  currentSize := 0
  currentFee := 0
  bestMoney
  best := []
  totalSize := 0
  fee := 0

/-- The entry is taken in; `none` where the block gets too large. -/
def FillState.take (medianSize : Nat) (generated : UInt64) (height : Nat) (st : FillState)
    (id : Hash) (txd : TxDetails) : Option FillState :=
  let st := { st with
    kImages := appendKeyImages st.kImages txd.tx.vin
    ready := st.ready ++ [id]
    currentSize := st.currentSize + txd.blobSize
    currentFee := st.currentFee + txd.fee }
  match getBlockReward medianSize (st.currentSize + currencyCoinbaseBlobReservedSize) generated
      height with
  | none => none
  | some currentReward =>
    if st.bestMoney < currentReward + st.currentFee then
      some { st with
        bestMoney := currentReward + st.currentFee
        best := st.ready
        totalSize := st.currentSize
        fee := st.currentFee }
    else some st

/-- `for (size_t i = 0; i < txs.size(); i++)`. -/
def fillLoop (env : Env) (now : Nat) (chain : Storage) (medianSize : Nat) (generated : UInt64)
    (height : Nat) : List (Hash × TxDetails) → FillState → Except Exn FillState
  | [], st => .ok st
  | (id, txd) :: rest, st =>
    match isTransactionReadyToGo env now chain txd with
    | .error e => .error e
    | .ok (isReady, txd) =>
      let st := { st with
        pool := { st.pool with mTransactions := st.pool.mTransactions.insert id txd } }
      if ¬ isReady ∨ haveKeyImages st.kImages txd.tx.vin then
        fillLoop env now chain medianSize generated height rest st
      else
        match st.take medianSize generated height id txd with
        | none => .ok st
        | some st => fillLoop env now chain medianSize generated height rest st

/-- Fee rates that do not increase. -/
def FeeOrder (txs : List (Hash × TxDetails)) : Prop :=
  txs.Pairwise fun a b => ¬ b.2.fee.toNat * a.2.blobSize > a.2.fee.toNat * b.2.blobSize

/-- What `fill_block_template` returns: the transactions, their size and their
fees. -/
structure Filled where
  txHashes : List Hash
  totalSize : Nat
  fee : UInt64
  pool : TxMemoryPool

/-- `fill_block_template`, with the pool's entries sorted as `txs`; `none` where
the source returns `false`. -/
def fillBlockTemplate (env : Env) (now : Nat) (chain : Storage) (p : TxMemoryPool)
    (txs : List (Hash × TxDetails)) (medianSize : Nat) (generated : UInt64) (height : Nat) :
    Except Exn (Option Filled) :=
  match getBlockReward medianSize currencyCoinbaseBlobReservedSize generated height with
  | none => .ok none
  | some bestMoney =>
    match fillLoop env now chain medianSize generated height txs (.start p bestMoney) with
    | .error e => .error e
    | .ok st => .ok (some ⟨st.best, st.totalSize, st.fee, st.pool⟩)

/-! ## What the numbers say -/

/-- The size and the fees of pool transactions. -/
def poolSize (p : TxMemoryPool) (ids : List Hash) : Nat :=
  (ids.map fun id => (p.mTransactions[id]?).elim 0 (·.blobSize)).sum

def poolFee (p : TxMemoryPool) (ids : List Hash) : UInt64 :=
  ids.foldl (fun (fee : UInt64) id => fee + (p.mTransactions[id]?).elim 0 (·.fee)) 0

section

variable {env : Env} {now : Nat} {chain : Storage} {medianSize height : Nat} {generated : UInt64}
  {p : TxMemoryPool}

/-- A check changes nothing but the notes on it. -/
theorem recheck_same {txd txd' : TxDetails} {r : Bool}
    (h : recheck env now chain txd = .ok (r, txd')) :
    txd'.tx = txd.tx ∧ txd'.blobSize = txd.blobSize ∧ txd'.fee = txd.fee := by
  unfold recheck at h
  split at h
  · cases h
  · cases h
    exact ⟨rfl, rfl, rfl⟩
  · cases h
    exact ⟨rfl, rfl, rfl⟩

theorem isTransactionReadyToGo_same {txd txd' : TxDetails} {r : Bool}
    (h : isTransactionReadyToGo env now chain txd = .ok (r, txd')) :
    txd'.tx = txd.tx ∧ txd'.blobSize = txd.blobSize ∧ txd'.fee = txd.fee := by
  unfold isTransactionReadyToGo at h
  split at h
  · split at h
    · cases h
      exact ⟨rfl, rfl, rfl⟩
    · exact recheck_same h
  · split at h
    · cases h
      exact ⟨rfl, rfl, rfl⟩
    · split at h
      · split at h
        · cases h
          exact ⟨rfl, rfl, rfl⟩
        · exact recheck_same h
      · cases h
        exact ⟨rfl, rfl, rfl⟩

/-- The running totals are those of the transactions they stand for. -/
structure FillState.Accounted (p : TxMemoryPool) (st : FillState) : Prop where
  currentSize : st.currentSize = p.poolSize st.ready
  currentFee : st.currentFee = p.poolFee st.ready
  totalSize : st.totalSize = p.poolSize st.best
  fee : st.fee = p.poolFee st.best

theorem FillState.Accounted.take {st st' : FillState} {id : Hash} {txd : TxDetails}
    (hst : st.Accounted p) (hsize : (p.mTransactions[id]?).elim 0 (·.blobSize) = txd.blobSize)
    (hfee : (p.mTransactions[id]?).elim 0 (·.fee) = txd.fee)
    (h : st.take medianSize generated height id txd = some st') : st'.Accounted p := by
  have hcurrent : st.currentSize + txd.blobSize = p.poolSize (st.ready ++ [id]) := by
    unfold poolSize
    rw [List.map_append, List.sum_append, List.map_singleton, List.sum_singleton, hsize,
      hst.currentSize]
    rfl
  have hcurrentFee : st.currentFee + txd.fee = p.poolFee (st.ready ++ [id]) := by
    unfold poolFee
    rw [List.foldl_append, List.foldl_cons, List.foldl_nil, hfee, hst.currentFee]
    rfl
  unfold FillState.take at h
  simp only at h
  split at h
  · cases h
  · split at h
    · cases h
      exact ⟨hcurrent, hcurrentFee, hcurrent, hcurrentFee⟩
    · cases h
      exact ⟨hcurrent, hcurrentFee, hst.totalSize, hst.fee⟩

theorem fillLoop_accounted {txs : List (Hash × TxDetails)} {st st' : FillState}
    (htxs : ∀ e ∈ txs, p.mTransactions[e.1]? = some e.2) (hst : st.Accounted p)
    (h : fillLoop env now chain medianSize generated height txs st = .ok st') :
    st'.Accounted p := by
  induction txs generalizing st with
  | nil =>
    cases h
    exact hst
  | cons e rest ih =>
    obtain ⟨id, txd⟩ := e
    rw [List.forall_mem_cons] at htxs
    unfold fillLoop at h
    split at h
    · cases h
    · next isReady txd' hready =>
      obtain ⟨-, hsize, hfee⟩ := isTransactionReadyToGo_same hready
      have hst' : ({ st with pool := { st.pool with
          mTransactions := st.pool.mTransactions.insert id txd' } } : FillState).Accounted p :=
        ⟨hst.currentSize, hst.currentFee, hst.totalSize, hst.fee⟩
      simp only at h
      split at h
      · exact ih htxs.2 hst' h
      · split at h
        · cases h
          exact hst'
        · next st₂ htake =>
          refine ih htxs.2 (hst'.take ?_ ?_ htake) h
          · rw [htxs.1, hsize]
            rfl
          · rw [htxs.1, hfee]
            rfl

theorem FillState.take_best {st st' : FillState} {id : Hash} {txd : TxDetails}
    (hst : st.best.length ≤ st.ready.length)
    (h : st.take medianSize generated height id txd = some st') :
    st'.best.length ≤ st'.ready.length ∧ st'.ready.length = st.ready.length + 1 := by
  unfold FillState.take at h
  simp only at h
  split at h
  · cases h
  · split at h
    · cases h
      exact ⟨Nat.le_refl _, List.length_append⟩
    · cases h
      refine ⟨?_, List.length_append⟩
      show st.best.length ≤ (st.ready ++ [id]).length
      rw [List.length_append]
      omega

/-- No more transactions are taken than there are. -/
theorem fillLoop_best {txs : List (Hash × TxDetails)} {st st' : FillState}
    (hst : st.best.length ≤ st.ready.length)
    (h : fillLoop env now chain medianSize generated height txs st = .ok st') :
    st'.best.length ≤ st.ready.length + txs.length := by
  induction txs generalizing st with
  | nil =>
    cases h
    exact hst
  | cons e rest ih =>
    unfold fillLoop at h
    rw [List.length_cons]
    split at h
    · cases h
    · next isReady txd' hready =>
      simp only at h
      split at h
      · have hrest := ih (by exact hst) h
        simp only at hrest
        omega
      · split at h
        · cases h
          show st.best.length ≤ _
          omega
        · next st₂ htake =>
          obtain ⟨hbest, hlen⟩ := FillState.take_best (by exact hst) htake
          have hrest := ih hbest h
          simp only at hlen
          omega

theorem fillBlockTemplate_best {txs : List (Hash × TxDetails)} {f : Filled}
    (h : fillBlockTemplate env now chain p txs medianSize generated height = .ok (some f)) :
    f.txHashes.length ≤ txs.length := by
  unfold fillBlockTemplate at h
  split at h
  · cases h
  · next bestMoney hmoney =>
    split at h
    · cases h
    · next st' hloop =>
      cases h
      have hbest : st'.best.length ≤ 0 + txs.length := fillLoop_best (Nat.zero_le _) hloop
      show st'.best.length ≤ txs.length
      omega

/-- The size and the fees that are reported are those of the transactions chosen. -/
theorem fillBlockTemplate_totals {txs : List (Hash × TxDetails)} {f : Filled}
    (htxs : ∀ e ∈ txs, p.mTransactions[e.1]? = some e.2)
    (h : fillBlockTemplate env now chain p txs medianSize generated height = .ok (some f)) :
    f.totalSize = p.poolSize f.txHashes ∧ f.fee = p.poolFee f.txHashes := by
  unfold fillBlockTemplate at h
  split at h
  · cases h
  · split at h
    · cases h
    · next st hloop =>
      cases h
      have hst := fillLoop_accounted htxs ⟨rfl, rfl, rfl, rfl⟩ hloop
      exact ⟨hst.totalSize, hst.fee⟩

/-- An entry that is ready, with key images of its own and worth its size, is
taken. -/
theorem fillLoop_taken {r : UInt64} {e : Hash × TxDetails} (rest : List (Hash × TxDetails))
    (st : FillState)
    (hready : isTransactionReadyToGo env now chain e.2 = .ok (true, e.2))
    (himages : haveKeyImages st.kImages e.2.tx.vin = false)
    (hreward : getBlockReward medianSize
      (st.currentSize + e.2.blobSize + currencyCoinbaseBlobReservedSize) generated height = some r)
    (hbetter : st.bestMoney < r + (st.currentFee + e.2.fee)) :
    ∃ pool, fillLoop env now chain medianSize generated height (e :: rest) st =
      fillLoop env now chain medianSize generated height rest
        { pool
          kImages := appendKeyImages st.kImages e.2.tx.vin
          ready := st.ready ++ [e.1]
          currentSize := st.currentSize + e.2.blobSize
          currentFee := st.currentFee + e.2.fee
          bestMoney := r + (st.currentFee + e.2.fee)
          best := st.ready ++ [e.1]
          totalSize := st.currentSize + e.2.blobSize
          fee := st.currentFee + e.2.fee } := by
  obtain ⟨id, txd⟩ := e
  refine ⟨{ st.pool with mTransactions := st.pool.mTransactions.insert id txd }, ?_⟩
  rw [fillLoop, hready]
  simp only [himages, not_true_eq_false, Bool.false_eq_true, or_self, if_false]
  unfold FillState.take
  simp only
  rw [hreward]
  simp only
  rw [if_pos hbetter]

theorem fillBlockTemplate_pair {r₀ r₁ r₂ : UInt64} (p : TxMemoryPool) {a b : Hash × TxDetails}
    (ha : isTransactionReadyToGo env now chain a.2 = .ok (true, a.2))
    (hb : isTransactionReadyToGo env now chain b.2 = .ok (true, b.2))
    (hia : haveKeyImages ∅ a.2.tx.vin = false)
    (hib : haveKeyImages (appendKeyImages ∅ a.2.tx.vin) b.2.tx.vin = false)
    (hr₀ : getBlockReward medianSize currencyCoinbaseBlobReservedSize generated height = some r₀)
    (hr₁ : getBlockReward medianSize (a.2.blobSize + currencyCoinbaseBlobReservedSize) generated
      height = some r₁)
    (hr₂ : getBlockReward medianSize
      (a.2.blobSize + b.2.blobSize + currencyCoinbaseBlobReservedSize) generated height = some r₂)
    (h₁ : r₀ < r₁ + a.2.fee) (h₂ : r₁ + a.2.fee < r₂ + (a.2.fee + b.2.fee)) :
    ∃ pool, p.fillBlockTemplate env now chain [a, b] medianSize generated height =
      .ok (some ⟨[a.1, b.1], a.2.blobSize + b.2.blobSize, a.2.fee + b.2.fee, pool⟩) := by
  have hsize : (FillState.start p r₀).currentSize + a.2.blobSize = a.2.blobSize :=
    Nat.zero_add _
  have hfee : (FillState.start p r₀).currentFee + a.2.fee = a.2.fee :=
    UInt64.zero_add _
  obtain ⟨p₁, hfirst⟩ := fillLoop_taken [b] (.start p r₀) ha hia
    ((congrArg (fun size => getBlockReward medianSize (size + currencyCoinbaseBlobReservedSize)
      generated height) hsize).trans hr₁) (hfee.symm ▸ h₁)
  rw [hsize, hfee] at hfirst
  obtain ⟨p₂, hsecond⟩ := fillLoop_taken []
    ⟨p₁, appendKeyImages ∅ a.2.tx.vin, [a.1], a.2.blobSize, a.2.fee, r₁ + a.2.fee,
      [a.1], a.2.blobSize, a.2.fee⟩ hb hib hr₂ h₂
  unfold fillBlockTemplate
  rw [hr₀]
  simp only
  rw [hfirst.trans hsecond]
  exact ⟨p₂, rfl⟩

theorem entry_of_toList {txs : List (Hash × TxDetails)} (h : p.mTransactions.toList = txs) :
    ∀ e ∈ txs, p.mTransactions[e.1]? = some e.2 := by
  intro e he
  rw [← h] at he
  exact Std.ExtTreeMap.mem_toList_iff_getElem?_eq_some.1 he

end

end TxMemoryPool

end DarknetSpace
