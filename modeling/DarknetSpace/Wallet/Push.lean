import DarknetSpace.Wallet.Detach
import DarknetSpace.Pool.FillTemplate

/-!
# Blocks pushed to a wallet and blocks it pulls

A wallet beside a daemon learns of a block in two ways. `pull_blocks` asks the
daemon for what comes behind its short history and counts up from the height in
the answer. `process_new_block` gets the notice that goes round when a block is
found, and takes the block's position from it. The notice carries the height of
the chain after the block was added, which is the position behind the block.

`holdsIds_chain` and what follows it say that the reading of transactions never touches
the wallet's chain, so the two ways can be compared on their positions alone. Main
result: `push_differs_from_pull`, for every daemon and wallet: what pulling brings, the
notice does not, and a wallet that has the block already takes the notice only if it has
the same id one place further up.
-/

namespace DarknetSpace

open StateExn

/-! ## Pushing -/

/-- `NOTIFY_NEW_BLOCK::request`. -/
structure NewBlockNotice where
  b : BlockCompleteEntry
  currentBlockchainHeight : Nat
  hop : Nat
  deriving DecidableEq

/-- `core::handle_block_found`: the notice that is relayed, if one is. -/
def handleBlockFound (env : Env) (now depth : Nat) (b : Block) : NodeM (Option NewBlockNotice) := do
  let v ← addNewBlock env now depth b
  if v.2.mVerifivationFailed then pure none
  else if v.2.mAddedToMainChain then
    let n ← get
    let found ← reads fun n => n.getTransactions b.txHashes
    -- a reorganisation came in between: the block is not relayed
    if found.2 ≠ [] ∧
        n.chain.getBlockIdByHeight env (getBlockHeight b).toNat ≠ getBlockHash env b then pure none
    else if ¬ (found.1.length = b.txHashes.length ∧ found.2 = []) then pure none
    else pure (some
      { b := ⟨blockToBlob b, found.1.map txToBlob⟩
        currentBlockchainHeight := n.chain.getCurrentBlockchainHeight
        hop := 0 })
  else pure none

/-- What is left of the notice at a peer some hops on, `handle_notify_new_block`:
the peer counts itself and hands the notice on, also to its wallet. -/
def NewBlockNotice.relayed (hops : Nat) (arg : NewBlockNotice) : NewBlockNotice :=
  { arg with hop := arg.hop + hops }

/-- `wallet2::process_new_block`. -/
def processNewBlock (we : WalletEnv) (req : NewBlockNotice) : WalletM Unit :=
  match parseAndValidateBlockFromBlob req.b.block with
  | none => throw .blockParse
  | some bl => do
    let w ← get
    if w.mBlockchain.length ≤ req.currentBlockchainHeight then
      processNewBlockchainEntry we bl req.b.txs (getBlockHash we.env bl) req.currentBlockchainHeight
    else if w.mBlockchain[req.currentBlockchainHeight]? ≠ some (getBlockHash we.env bl) then
      detachBlockchain req.currentBlockchainHeight
      processNewBlockchainEntry we bl req.b.txs (getBlockHash we.env bl) req.currentBlockchainHeight
    else pure ()

/-! ## Pulling -/

/-- `COMMAND_RPC_GET_BLOCKS_FAST_MAX_COUNT` -/
def commandRpcGetBlocksFastMaxCount : Nat := 1000

/-- `COMMAND_RPC_GET_BLOCKS_FAST::response`. -/
structure GetBlocksFast where
  startHeight : Nat
  currentHeight : Nat
  blocks : List BlockCompleteEntry

/-- `on_get_blocks`. What is not found is answered as an internal error, and no
response comes through. -/
def Node.onGetBlocks (env : Env) (ready : Bool) (n : Node) (blockIds : List Hash) :
    RpcAnswer GetBlocksFast :=
  if ¬ ready then .response .busy ⟨0, 0, []⟩
  else
    match n.chain.findBlockchainSupplement env blockIds with
    | .error _ | .ok none => .none
    | .ok (some start) =>
      match n.completeEntries
          (((n.chain.mBlocks.drop start).take commandRpcGetBlocksFastMaxCount).map BlockEntry.bl) with
      | .ok (entries, []) =>
        .response .ok ⟨start, n.chain.getCurrentBlockchainHeight, entries⟩
      | .ok (_, _ :: _) | .error _ => .none

/-- One block of an answer; how many blocks it added. -/
def pullEntry (we : WalletEnv) (startHeight currentIndex : Nat) (bl : Block) (txs : List Blob) :
    WalletM Nat := do
  let w ← get
  if w.mBlockchain.length ≤ currentIndex then
    processNewBlockchainEntry we bl txs (getBlockHash we.env bl) currentIndex
    pure 1
  else if w.mBlockchain[currentIndex]? ≠ some (getBlockHash we.env bl) then
    if currentIndex = startHeight then
      throw (.walletInternal "wrong daemon response: split starts from the first block in response")
    else
      detachBlockchain currentIndex
      processNewBlockchainEntry we bl txs (getBlockHash we.env bl) currentIndex
      pure 0
  else pure 0

/-- The loop of `pull_blocks` over the blocks of a response. -/
def pullEntries (we : WalletEnv) (startHeight : Nat) :
    (currentIndex : Nat) → List BlockCompleteEntry → WalletM Nat
  | _, [] => pure 0
  | currentIndex, entry :: rest =>
    match parseAndValidateBlockFromBlob entry.block with
    | none => throw .blockParse
    | some bl => do
      let added ← pullEntry we startHeight currentIndex bl entry.txs
      let more ← pullEntries we startHeight (currentIndex + 1) rest
      pure (added + more)

/-- `pull_blocks`, with the daemon's answer to `getblocks.bin`. -/
def pullBlocks (we : WalletEnv) (getBlocks : List Hash → RpcAnswer GetBlocksFast) : WalletM Nat := do
  let res ← reads fun w =>
    (getBlocks (walletShortChainHistory w.mBlockchain)).check "getblocks.bin" .getBlocks
  let w ← get
  if w.mBlockchain.length ≤ res.startHeight then
    throw (.walletInternal
      "wrong daemon response: m_start_height not less than local blockchain size")
  else pullEntries we res.startHeight res.startHeight res.blocks

/-! ## The ids a wallet holds -/

/-- Those ids and no others. -/
def HoldsIds (ids : List Hash) (w : Wallet2) : Prop := w.mBlockchain = ids

/-- A fact about whose wallet it is, and about its ids and their number. -/
def OfChain (P : Wallet2 → Prop) : Prop :=
  ∀ w w' : Wallet2, w'.mAccount = w.mAccount → w'.mBlockchain = w.mBlockchain →
    w'.mLocalBcHeight = w.mLocalBcHeight → P w → P w'

theorem holdsIds_chain {ids : List Hash} : OfChain (HoldsIds ids) :=
  fun _ _ _ hids _ hw => hids.trans hw

section

variable {we : WalletEnv} {P : Wallet2 → Prop}

theorem keeps_chain_processUnconfirmed (hP : OfChain P) (env : Env) (tx : Transaction) :
    Keeps P (processUnconfirmed env tx) := by
  intro w hw
  rw [processUnconfirmed_eq]
  exact hP w _ rfl rfl rfl hw

/-- so does an output, -/
theorem keeps_chain_receiveOut (hP : OfChain P) (tx : Transaction) (txPubKey : PublicKey)
    (height : Nat) (oIndexes : List UInt64) (o : Nat) :
    Keeps P (receiveOut we tx txPubKey height oIndexes o) := by
  intro w hw
  unfold receiveOut
  rw [bind_of_ok (get_apply w)]
  cases tx.vout[o]? with
  | none => exact hP w _ rfl rfl rfl hw
  | some out =>
    obtain ⟨amount, target⟩ := out
    cases we.img.generateKeyImageHelper w.mAccount txPubKey o with
    | none => exact hP w _ rfl rfl rfl hw
    | some derived =>
      cases target with
      | toScript _ _ | toScripthash _ => exact hP w _ rfl rfl rfl hw
      | toKey key attr =>
        by_cases hkey : derived.1 ≠ key
        · simp only [if_pos hkey]
          exact hP w _ rfl rfl rfl hw
        · simp only [if_neg hkey]
          exact hP w _ rfl rfl rfl hw

/-- all outputs of a transaction, -/
theorem keeps_chain_receive (hP : OfChain P) (tx : Transaction) (height : Nat)
    (found : AccOuts) :
    Keeps P (receive we tx height found) := by
  have houts : ∀ oIndexes outs,
      Keeps P (receiveOuts we tx found.txPubKey height oIndexes outs) := by
    intro oIndexes outs
    induction outs with
    | nil => exact Keeps.pure _
    | cons o outs ih => exact Keeps.bind (keeps_chain_receiveOut hP _ _ _ _ _) fun _ => ih
  unfold receive
  apply Keeps.ite
  · exact Keeps.bind (Keeps.reads _) fun _ => Keeps.bind (houts _ _) fun _ => Keeps.pure _
  · exact Keeps.pure _

/-- its inputs, -/
theorem keeps_chain_spendInputs (hP : OfChain P) (vin : List Txin) (i : Nat) :
    Keeps P (spendInputs i vin) := by
  have hspend : ∀ k, Keeps P (spendInput k) := by
    intro k w hw
    unfold spendInput
    rw [bind_of_ok (get_apply w)]
    cases w.mKeyImages[k]? with
    | none => exact hP w _ rfl rfl rfl hw
    | some i =>
      cases htd : w.mTransfers[i]? with
      | none =>
        simp only [htd]
        exact hP w _ rfl rfl rfl hw
      | some td =>
        simp only [htd]
        exact hP w _ rfl rfl rfl hw
  induction vin generalizing i with
  | nil => exact Keeps.pure _
  | cons x rest ih =>
    cases x with
    | gen _ | toScript _ _ _ | toScripthash _ _ _ _ _ => exact ih i
    | toKey amount offsets kImage =>
      exact Keeps.bind (hspend _) fun _ => Keeps.bind (ih _) fun _ => Keeps.pure _

theorem keeps_chain_notePayment (hP : OfChain P) (env : Env) (tx : Transaction) (height : Nat)
    (got spent : UInt64) : Keeps P (notePayment env tx height got spent) := by
  intro w hw
  rw [notePayment_eq]
  exact hP w _ rfl rfl rfl hw

/-- the notes of what was moved, -/
theorem keeps_chain_noteTransfers (hP : OfChain P) (env : Env) (b : Block) (tx : Transaction)
    (got spent : UInt64) (mtd : MoneyTransfer2Details) (recipient recipientAlias : Blob) :
    Keeps P (noteTransfers env b tx got spent mtd recipient recipientAlias) := by
  have hnote : ∀ wti isIncome recipient recipientAlias,
      Keeps P (noteTransfer wti isIncome recipient recipientAlias) := by
    intro wti isIncome recipient recipientAlias w hw
    unfold noteTransfer
    by_cases hfilled : wti.2 = true
    · rw [if_neg (not_not.2 hfilled)]
      exact hP w _ rfl rfl rfl hw
    · rw [if_pos hfilled]
      exact hP w _ rfl rfl rfl hw
  unfold noteTransfers
  apply Keeps.ite
  · apply Keeps.ite
    · exact hnote _ _ _ _
    · exact Keeps.bind (hnote _ _ _ _) fun _ => hnote _ _ _ _
  · apply Keeps.ite
    · exact hnote _ _ _ _
    · exact Keeps.pure _

/-- a whole transaction, -/
theorem keeps_chain_processNewTransaction (hP : OfChain P) (tx : Transaction) (height : Nat)
    (b : Block) : Keeps P (processNewTransaction we tx height b) := by
  unfold processNewTransaction
  refine Keeps.bind (keeps_chain_processUnconfirmed hP _ _) fun recipient => ?_
  refine Keeps.bind (Keeps.reads _) fun found => ?_
  refine Keeps.bind (keeps_chain_receive hP _ _ _) fun receiveIndices => ?_
  refine Keeps.bind (keeps_chain_spendInputs hP _ _) fun spent => ?_
  exact Keeps.bind (keeps_chain_notePayment hP _ _ _ _ _) fun _ =>
    keeps_chain_noteTransfers hP _ _ _ _ _ _ _ _

/-- and all transactions of a block. -/
theorem keeps_chain_processEntryTxs (hP : OfChain P) (acc : AccountBase) (b : Block)
    (txs : List Blob) (height : Nat) : Keeps P (processEntryTxs we acc b txs height) := by
  have htxs : Keeps P (processTxs we height b txs) := by
    induction txs with
    | nil => exact Keeps.pure _
    | cons blob rest ih =>
      unfold processTxs
      split
      · exact Keeps.throw _
      · exact Keeps.bind (keeps_chain_processNewTransaction hP _ _ _) fun _ => ih
  unfold processEntryTxs
  apply Keeps.ite
  · exact Keeps.bind (keeps_chain_processNewTransaction hP _ _ _) fun _ => htxs
  · exact Keeps.pure _

/-- A block that went through is on top of what was there. -/
theorem processNewBlockchainEntry_mBlockchain {b : Block} {txs : List Blob} {blId : Hash}
    {height : Nat} {w w' : Wallet2}
    (h : processNewBlockchainEntry we b txs blId height w = .ok () w') :
    w'.mBlockchain = w.mBlockchain ++ [blId] := by
  unfold processNewBlockchainEntry at h
  rw [bind_of_ok (get_apply w)] at h
  by_cases hheight : height ≠ w.mBlockchain.length
  · rw [if_pos hheight] at h
    cases h
  · rw [if_neg hheight] at h
    obtain ⟨_, v, hv, hpush⟩ := bind_eq_ok.1 h
    cases hpush
    have htxs : Keeps (HoldsIds w.mBlockchain) (processEntryTxs we w.mAccount b txs height) :=
      keeps_chain_processEntryTxs holdsIds_chain _ _ _ _
    have hkept := htxs w rfl
    rw [hv, stateOf_ok] at hkept
    show v.mBlockchain ++ [blId] = w.mBlockchain ++ [blId]
    rw [show v.mBlockchain = w.mBlockchain from hkept]

/-- Erasing key images leaves the chain alone. -/
theorem keeps_chain_eraseKeyImages (hP : OfChain P) (tds : List TransferDetails) :
    Keeps P (eraseKeyImages tds) := by
  induction tds with
  | nil => exact Keeps.pure _
  | cons td rest ih =>
    intro w hw
    unfold eraseKeyImages
    rw [bind_of_ok (get_apply w)]
    by_cases hfound : w.mKeyImages.contains td.mKeyImage = true
    · rw [if_pos hfound, bind_of_ok (set_apply ..)]
      exact ih _ (hP w _ rfl rfl rfl hw)
    · rw [if_neg hfound]
      exact hw

/-- A detach cuts the chain of the wallet. -/
theorem detachBlockchain_mBlockchain {height : Nat} {w w' : Wallet2}
    (h : detachBlockchain height w = .ok () w') : w'.mBlockchain = w.mBlockchain.take height := by
  have herase : ∀ tds, Keeps (HoldsIds w.mBlockchain) (eraseKeyImages tds) :=
    keeps_chain_eraseKeyImages holdsIds_chain
  unfold detachBlockchain at h
  rw [bind_of_ok (get_apply w)] at h
  obtain ⟨_, v, hv, hcut⟩ := bind_eq_ok.1 h
  have hkept := herase
    (w.mTransfers.drop (w.mTransfers.takeWhile fun td => decide (td.mBlockHeight < height)).length)
    w rfl
  rw [hv, stateOf_ok] at hkept
  by_cases hshort : w.mBlockchain.length < height
  · rw [if_pos hshort] at hcut
    cases hcut
  · rw [if_neg hshort] at hcut
    cases hcut
    show v.mBlockchain.take height = w.mBlockchain.take height
    rw [show v.mBlockchain = w.mBlockchain from hkept]

end

/-! ## What the daemon answers -/

section

variable {env : Env}

/-- A wallet that holds the beginning of the chain is answered from its top block
on. -/
theorem IndexedChain.findBlockchainSupplement_take {s : Storage} (h : IndexedChain env s) {k : Nat}
    (hpos : 0 < k) (hle : k ≤ s.mBlocks.length) :
    s.findBlockchainSupplement env
        (walletShortChainHistory ((blockIds env s.mBlocks).take k)) = .ok (some (k - 1)) := by
  have hlen : (blockIds env s.mBlocks).length = s.mBlocks.length := List.length_map ..
  have htake : ((blockIds env s.mBlocks).take k).length = k := by
    rw [List.length_take, hlen]
    omega
  have hheld : ∀ i, i < k → ∃ e, s.mBlocks[i]? = some e ∧
      ((blockIds env s.mBlocks).take k).getD i nullHash = getBlockHash env e.bl := by
    intro i hi
    have hlt : i < s.mBlocks.length := by omega
    refine ⟨s.mBlocks[i], List.getElem?_eq_getElem hlt, ?_⟩
    rw [List.getD_eq_getElem?_getD, List.getElem?_take_of_lt hi,
      getElem?_blockIds.2 ⟨_, List.getElem?_eq_getElem hlt, rfl⟩]
    rfl
  obtain ⟨genesis, hgenesis, hfirst⟩ := hheld 0 hpos
  obtain ⟨top, htop, hlast⟩ := hheld (k - 1) (by omega)
  have hfound : indexHeight s.mBlocksIndex (getBlockHash env top.bl) = some (k - 1) := by
    have hid : (blockIds env s.mBlocks)[k - 1]? = some (getBlockHash env top.bl) :=
      getElem?_blockIds.2 ⟨top, htop, rfl⟩
    rw [h.index]
    unfold indexHeight
    cases hidx : (blockIds env s.mBlocks).idxOf? (getBlockHash env top.bl) with
    | none => exact absurd (List.mem_of_getElem? hid) (List.idxOf?_eq_none_iff.1 hidx)
    | some j => rw [h.line.1.index_unique (getElem?_of_indexHeight hidx) hid]
  -- the list falls from the top block to the genesis block
  obtain ⟨rest, hheights⟩ : ∃ rest, shortHeights k = (k - 1) :: rest := by
    have hhead := shortHeights_head hpos
    cases hs : shortHeights k with
    | nil =>
      rw [hs] at hhead
      cases hhead
    | cons top rest =>
      rw [hs] at hhead
      cases hhead
      exact ⟨rest, rfl⟩
  unfold walletShortChainHistory
  rw [htake, shortHistory_eq _ hpos]
  unfold Storage.findBlockchainSupplement Storage.blockAt
  rw [List.getLast?_map, shortHeights_last, Option.map_some, hfirst, hgenesis]
  simp only [bind, Except.bind]
  rw [if_neg (not_not.2 rfl), hheights, List.map_cons, hlast, List.findSome?_cons, hfound]
  rfl

/-- The blobs of a response are those of its blocks. -/
theorem completeEntries_blocks {n : Node} {bs : List Block} {entries : List BlockCompleteEntry}
    {missed : List Hash} (h : n.completeEntries bs = .ok (entries, missed)) :
    entries.map BlockCompleteEntry.block = bs.map blockToBlob := by
  induction bs generalizing entries missed with
  | nil =>
    cases h
    rfl
  | cons b rest ih =>
    unfold Node.completeEntries at h
    cases htxs : n.getTransactions b.txHashes with
    | error ex =>
      rw [htxs] at h
      cases h
    | ok found =>
      rw [htxs] at h
      cases hrest : n.completeEntries rest with
      | error ex =>
        rw [hrest] at h
        cases h
      | ok more =>
        rw [hrest] at h
        cases h
        rw [List.map_cons, List.map_cons, ih hrest]

/-- An answer to such a wallet: its top block and the blocks behind it. -/
theorem onGetBlocks_take {n : Node} (h : IndexedChain env n.chain) {k : Nat} {ready : Bool}
    {res : GetBlocksFast} (hle : k ≤ n.chain.mBlocks.length)
    (hres : (n.onGetBlocks env ready (walletShortChainHistory
      ((blockIds env n.chain.mBlocks).take k))).check "getblocks.bin" .getBlocks = .ok res) :
    0 < k ∧ res.startHeight = k - 1 ∧ res.blocks.map BlockCompleteEntry.block =
      ((n.chain.mBlocks.drop (k - 1)).take commandRpcGetBlocksFastMaxCount).map
        fun e => blockToBlob e.bl := by
  unfold Node.onGetBlocks at hres
  by_cases hready : ready = true
  · rw [if_neg (not_not.2 hready)] at hres
    rcases Nat.eq_zero_or_pos k with rfl | hpos
    · -- an empty list is not answered
      cases hres
    · rw [h.findBlockchainSupplement_take hpos hle] at hres
      simp only at hres
      cases hentries : n.completeEntries (((n.chain.mBlocks.drop (k - 1)).take
          commandRpcGetBlocksFastMaxCount).map BlockEntry.bl) with
      | error ex =>
        rw [hentries] at hres
        cases hres
      | ok found =>
        obtain ⟨entries, missed⟩ := found
        rw [hentries] at hres
        cases missed with
        | cons _ _ => cases hres
        | nil =>
          cases hres
          refine ⟨hpos, rfl, ?_⟩
          rw [completeEntries_blocks hentries, List.map_map]
          rfl
  · rw [if_pos hready] at hres
    cases hres

end

/-! ## The two ways -/

section

variable {env : Env} {we : WalletEnv} {w w' : Wallet2}

/-- A block that was found is added, and announced as it is. -/
theorem handleBlockFound_some {now depth : Nat} {b : Block} {n₀ n : Node} {arg : NewBlockNotice}
    (h : handleBlockFound env now depth b n₀ = .ok (some arg) n) :
    (∃ v, addNewBlock env now depth b n₀ = .ok v n) ∧ arg.b.block = blockToBlob b ∧
      arg.currentBlockchainHeight = n.chain.mBlocks.length := by
  unfold handleBlockFound at h
  obtain ⟨v, n₁, hadd, h⟩ := bind_eq_ok.1 h
  by_cases hfailed : v.2.mVerifivationFailed = true
  · rw [if_pos hfailed] at h
    cases h
  · rw [if_neg hfailed] at h
    by_cases hadded : v.2.mAddedToMainChain = true
    · rw [if_pos hadded, bind_of_ok (get_apply n₁)] at h
      obtain ⟨found, n₂, hfound, h⟩ := bind_eq_ok.1 h
      obtain ⟨-, rfl⟩ := reads_eq_ok hfound
      split at h
      · cases h
      · split at h
        · cases h
        · cases h
          exact ⟨⟨v, hadd⟩, rfl, rfl⟩
    · rw [if_neg hadded] at h
      cases h

/-- A notice from further on than the wallet is refused. -/
theorem processNewBlock_ahead {req : NewBlockNotice}
    (h : w.mBlockchain.length < req.currentBlockchainHeight) :
    ∃ ex, processNewBlock we req w = .error ex w := by
  unfold processNewBlock
  cases parseAndValidateBlockFromBlob req.b.block with
  | none => exact ⟨_, rfl⟩
  | some bl =>
    refine ⟨.walletInternal "current_index does not match m_blockchain.size()", ?_⟩
    simp only
    rw [bind_of_ok (get_apply w), if_pos (Nat.le_of_lt h)]
    exact processNewBlockchainEntry_misplaced (by omega)

/-- A notice one position behind a block the wallet holds puts the block there. -/
theorem processNewBlock_held {req : NewBlockNotice} {bl : Block} {k : Nat}
    (hread : parseAndValidateBlockFromBlob req.b.block = some bl)
    (hheight : req.currentBlockchainHeight = k + 1)
    (hheld : w.mBlockchain[k]? = some (getBlockHash we.env bl)) :
    processNewBlock we req w = .ok () w ↔
      w.mBlockchain[k + 1]? = some (getBlockHash we.env bl) := by
  have hlt := (List.getElem?_eq_some_iff.1 hheld).1
  unfold processNewBlock
  rw [hread, hheight]
  simp only
  rw [bind_of_ok (get_apply w)]
  by_cases hlen : w.mBlockchain.length ≤ k + 1
  · rw [if_pos hlen]
    constructor
    · intro h
      have hsame := congrArg List.length (processNewBlockchainEntry_mBlockchain h)
      rw [List.length_append, List.length_singleton] at hsame
      omega
    · intro h
      have := (List.getElem?_eq_some_iff.1 h).1
      omega
  · rw [if_neg hlen]
    by_cases hsplit : w.mBlockchain[k + 1]? ≠ some (getBlockHash we.env bl)
    · rw [if_pos hsplit]
      refine iff_of_false ?_ hsplit
      intro h
      obtain ⟨_, v, hdetach, hentry⟩ := bind_eq_ok.1 h
      have hchain := processNewBlockchainEntry_mBlockchain hentry
      rw [detachBlockchain_mBlockchain hdetach] at hchain
      apply hsplit
      rw [hchain, List.getElem?_append_right (List.length_take_le ..), List.length_take,
        Nat.min_eq_left (by omega), Nat.sub_self]
      rfl
    · rw [if_neg hsplit]
      exact iff_of_true rfl (not_not.1 hsplit)

/-- A block at a position the wallet has is passed over if it is the one there. -/
theorem pullEntry_held {startHeight i : Nat} {bl : Block} {txs : List Blob}
    (h : w.mBlockchain[i]? = some (getBlockHash we.env bl)) :
    pullEntry we startHeight i bl txs w = .ok 0 w := by
  have hlt := (List.getElem?_eq_some_iff.1 h).1
  unfold pullEntry
  rw [bind_of_ok (get_apply w), if_neg (by omega), if_neg (not_not.2 h)]
  rfl

/-- A block behind the end of the wallet's chain is appended. -/
theorem pullEntry_next {startHeight : Nat} {bl : Block} {txs : List Blob} {added : Nat}
    (h : pullEntry we startHeight w.mBlockchain.length bl txs w = .ok added w') :
    added = 1 ∧ w'.mBlockchain = w.mBlockchain ++ [getBlockHash we.env bl] := by
  unfold pullEntry at h
  rw [bind_of_ok (get_apply w), if_pos (Nat.le_refl _)] at h
  obtain ⟨_, v, hentry, h⟩ := bind_eq_ok.1 h
  cases h
  exact ⟨rfl, processNewBlockchainEntry_mBlockchain hentry⟩

/-- A wallet one block behind its daemon gets that block. -/
theorem pullBlocks_next {n : Node} (hchain : IndexedChain we.env n.chain)
    (hreads : ∀ e ∈ n.chain.mBlocks,
      parseAndValidateBlockFromBlob (blockToBlob e.bl) = some e.bl)
    {k : Nat} (hlen : n.chain.mBlocks.length = k + 1)
    (hw : w.mBlockchain = (blockIds we.env n.chain.mBlocks).take k) {ready : Bool} {added : Nat}
    (h : pullBlocks we (n.onGetBlocks we.env ready) w = .ok added w') :
    added = 1 ∧ w'.mBlockchain = blockIds we.env n.chain.mBlocks := by
  unfold pullBlocks at h
  obtain ⟨res, v, hres, hpull⟩ := bind_eq_ok.1 h
  obtain ⟨hcheck, hv⟩ := reads_eq_ok hres
  subst hv
  simp only [hw] at hcheck
  obtain ⟨hpos, hstart, hblocks⟩ := onGetBlocks_take hchain (by omega) hcheck
  obtain ⟨x, y, hxy⟩ : ∃ x y, n.chain.mBlocks.drop (k - 1) = [x, y] := by
    apply List.length_eq_two.1
    rw [List.length_drop]
    omega
  have hx : n.chain.mBlocks[k - 1]? = some x := by
    have := congrArg (·[0]?) hxy
    rwa [List.getElem?_drop] at this
  have hy : n.chain.mBlocks[k]? = some y := by
    have := congrArg (·[1]?) hxy
    rw [List.getElem?_drop, Nat.sub_add_cancel hpos] at this
    exact this
  have hids : blockIds we.env n.chain.mBlocks = v.mBlockchain ++ [getBlockHash we.env y.bl] := by
    have hlast := getElem?_blockIds.2 ⟨y, hy, (rfl : getBlockHash we.env y.bl = _)⟩
    have hall := List.take_add_one (l := blockIds we.env n.chain.mBlocks) (i := k)
    rw [hlast, List.take_of_length_le (by rw [blockIds, List.length_map, hlen])] at hall
    rw [hw]
    exact hall
  have hheight : v.mBlockchain.length = k := by
    have := congrArg List.length hids
    rw [List.length_append, List.length_singleton, blockIds, List.length_map] at this
    omega
  have hheld : v.mBlockchain[k - 1]? = some (getBlockHash we.env x.bl) := by
    have hid := getElem?_blockIds.2 ⟨x, hx, (rfl : getBlockHash we.env x.bl = _)⟩
    rwa [hids, List.getElem?_append_left (by omega)] at hid
  -- two blocks come: the top of the wallet and the one it does not have
  rw [hxy] at hblocks
  obtain ⟨e₁, e₂, hentries⟩ : ∃ e₁ e₂, res.blocks = [e₁, e₂] := by
    apply List.length_eq_two.1
    rw [← List.length_map (f := BlockCompleteEntry.block), hblocks]
    rfl
  rw [hentries] at hblocks
  obtain ⟨hfirst, hsecond⟩ : e₁.block = blockToBlob x.bl ∧ e₂.block = blockToBlob y.bl := by
    obtain ⟨h₁, hrest⟩ := List.cons.inj hblocks
    exact ⟨h₁, (List.cons.inj hrest).1⟩
  rw [bind_of_ok (get_apply v), hstart, if_neg (by omega), hentries] at hpull
  unfold pullEntries at hpull
  rw [hfirst, hreads x (List.mem_of_getElem? hx)] at hpull
  simp only at hpull
  rw [bind_of_ok (pullEntry_held hheld), Nat.sub_add_cancel hpos] at hpull
  obtain ⟨more, v', hmore, hsum⟩ := bind_eq_ok.1 hpull
  cases hsum
  unfold pullEntries at hmore
  rw [hsecond, hreads y (List.mem_of_getElem? hy)] at hmore
  simp only at hmore
  obtain ⟨added, u, hadded, hlast⟩ := bind_eq_ok.1 hmore
  cases hlast
  rw [← hheight] at hadded
  obtain ⟨rfl, hgrown⟩ := pullEntry_next hadded
  exact ⟨rfl, hgrown.trans hids.symm⟩

end

/-- A notice goes round for the block at height `k`. A wallet that holds the
blocks below it refuses the notice, where pulling brings the block; a wallet that
holds the block puts it on top once more, unless it already has it there twice. -/
theorem push_differs_from_pull (we : WalletEnv) {now depth : Nat} {b : Block} {n₀ n : Node}
    {arg : NewBlockNotice} {k : Nat} (hn₀ : Reachable we.env n₀)
    (hfound : handleBlockFound we.env now depth b n₀ = .ok (some arg) n)
    (hlen : n.chain.mBlocks.length = k + 1)
    (htop : (blockIds we.env n.chain.mBlocks)[k]? = some (getBlockHash we.env b)) (hops : Nat) :
    (∀ w : Wallet2, w.mBlockchain = (blockIds we.env n.chain.mBlocks).take k →
      (∃ ex, processNewBlock we (arg.relayed hops) w = .error ex w) ∧
      ∀ ready added w', (∀ e ∈ n.chain.mBlocks,
          parseAndValidateBlockFromBlob (blockToBlob e.bl) = some e.bl) →
        pullBlocks we (n.onGetBlocks we.env ready) w = .ok added w' →
        w'.mBlockchain = w.mBlockchain ++ [getBlockHash we.env b]) ∧
    ∀ (w : Wallet2) (bl : Block), parseAndValidateBlockFromBlob arg.b.block = some bl →
      w.mBlockchain[k]? = some (getBlockHash we.env bl) →
      (processNewBlock we (arg.relayed hops) w = .ok () w ↔
        w.mBlockchain[k + 1]? = some (getBlockHash we.env bl)) := by
  obtain ⟨⟨v, hadd⟩, hblock, hheight⟩ := handleBlockFound_some hfound
  have hstep : runEvent we.env now depth (.newBlock b) n₀ = .ok v.1 n := bind_of_ok hadd
  have hn : Reachable we.env n := .step hn₀ (.inl ⟨v.1, hstep⟩)
  have hbehind : (arg.relayed hops).currentBlockchainHeight = k + 1 := hheight.trans hlen
  refine ⟨?_, ?_⟩
  · intro w hw
    have hcount : w.mBlockchain.length = k := by
      rw [hw, List.length_take, blockIds, List.length_map]
      omega
    refine ⟨processNewBlock_ahead (by omega), ?_⟩
    intro ready added w' hreads hpull
    obtain ⟨-, hgrown⟩ := pullBlocks_next hn.indexedChain hreads hlen hw hpull
    have hall := List.take_add_one (l := blockIds we.env n.chain.mBlocks) (i := k)
    rw [htop, List.take_of_length_le (by rw [blockIds, List.length_map, hlen])] at hall
    rw [hgrown, hw]
    exact hall
  · intro w bl hread hheld
    exact processNewBlock_held hread hbehind hheld

namespace Devnet

/-- A daemon beside the purse, with its genesis block. -/
def daemonEnv : Env := (walletEnv answering).env

/-- A daemon with its genesis block. -/
def daemon : Node := stateOf (addNewBlock daemonEnv now 3 genesis (Node.initial ∅))

/-- It finds a block. -/
def found : EStateM.Result Exn Node (Option NewBlockNotice) :=
  handleBlockFound daemonEnv now 3 (mainBlock 1) daemon

/-- The notice about the block that was found. -/
def foundNotice : NewBlockNotice := (returned found).join.getD ⟨⟨[], []⟩, 0, 0⟩

/-- The purse after it has pulled from the daemon. -/
def pulled : EStateM.Result WalletError Wallet2 Nat :=
  pullBlocks (walletEnv answering) ((stateOf found).onGetBlocks daemonEnv true) newPurse

theorem daemon_reachable (h : isAdded (addNewBlock daemonEnv now 3 genesis (Node.initial ∅)) = true) :
    Reachable daemonEnv daemon :=
  .genesis (eq_added h)

end Devnet

/-- The notice of the first block leaves the purse as it was, and after the purse
has pulled the block the notice puts it there again. -/
theorem push_differs_from_pull_devnet :
    (∃ ex, processNewBlock (Devnet.walletEnv Devnet.answering) Devnet.foundNotice Devnet.newPurse =
        .error ex Devnet.newPurse) ∧
      (stateOf Devnet.pulled).mBlockchain = [1, 2] ∧
      processNewBlock (Devnet.walletEnv Devnet.answering) Devnet.foundNotice
        (stateOf Devnet.pulled) ≠ .ok () (stateOf Devnet.pulled) := by
  have eval :
      isAdded (addNewBlock Devnet.daemonEnv Devnet.now 3 Devnet.genesis (Node.initial ∅)) = true ∧
      returned Devnet.found = some (some Devnet.foundNotice) ∧
      (stateOf Devnet.found).chain.mBlocks.length = 1 + 1 ∧
      blockIds Devnet.daemonEnv (stateOf Devnet.found).chain.mBlocks = [1, 2] ∧
      getBlockHash Devnet.daemonEnv (Devnet.mainBlock 1) = 2 ∧
      (∀ e ∈ (stateOf Devnet.found).chain.mBlocks,
        parseAndValidateBlockFromBlob (blockToBlob e.bl) = some e.bl) ∧
      returned Devnet.pulled = some 1 ∧
      parseAndValidateBlockFromBlob Devnet.foundNotice.b.block = some (Devnet.mainBlock 1) := by
    decide +kernel
  obtain ⟨hgenesis, hfound, hlen, hids, hid, hreads, hpulled, hread⟩ := eval
  have hrun : handleBlockFound Devnet.daemonEnv Devnet.now 3 (Devnet.mainBlock 1) Devnet.daemon =
      .ok (some Devnet.foundNotice) (stateOf Devnet.found) := eq_returned hfound
  have hpull : pullBlocks (Devnet.walletEnv Devnet.answering)
      ((stateOf Devnet.found).onGetBlocks Devnet.daemonEnv true) Devnet.newPurse =
        .ok 1 (stateOf Devnet.pulled) := eq_returned hpulled
  have htop : (blockIds Devnet.daemonEnv (stateOf Devnet.found).chain.mBlocks)[1]? =
      some (getBlockHash Devnet.daemonEnv (Devnet.mainBlock 1)) := by
    rw [hids, hid]
    rfl
  obtain ⟨hbehind, hheld⟩ := push_differs_from_pull (Devnet.walletEnv Devnet.answering)
    (Devnet.daemon_reachable hgenesis) hrun hlen htop 0
  obtain ⟨hpush, hgrown⟩ := hbehind Devnet.newPurse (by
    show [1] = (blockIds Devnet.daemonEnv (stateOf Devnet.found).chain.mBlocks).take 1
    rw [hids]
    rfl)
  have hchain : (stateOf Devnet.pulled).mBlockchain = [1, 2] := by
    rw [hgrown true 1 _ hreads hpull, show getBlockHash (Devnet.walletEnv Devnet.answering).env
      (Devnet.mainBlock 1) = 2 from hid]
    rfl
  refine ⟨hpush, hchain, ?_⟩
  intro hpushed
  have htwice := (hheld _ _ hread (by
    rw [hchain, show getBlockHash (Devnet.walletEnv Devnet.answering).env
      (Devnet.mainBlock 1) = 2 from hid]
    rfl)).1 hpushed
  rw [hchain] at htwice
  cases htwice

/-- Pulling brings the block, the notice does not; and the notice changes a
wallet that has the block. -/
theorem pushed_block_misplaced :
    handleBlockFound Devnet.daemonEnv Devnet.now 3 (Devnet.mainBlock 1) Devnet.daemon =
        .ok (some Devnet.foundNotice) (stateOf Devnet.found) ∧
      Devnet.newPurse.mBlockchain =
        (blockIds Devnet.daemonEnv (stateOf Devnet.found).chain.mBlocks).take 1 ∧
      ∃ w', pullBlocks (Devnet.walletEnv Devnet.answering)
          ((stateOf Devnet.found).onGetBlocks Devnet.daemonEnv true) Devnet.newPurse = .ok 1 w' ∧
        w'.mBlockchain = [1, 2] ∧
        (stateOf (processNewBlock (Devnet.walletEnv Devnet.answering) Devnet.foundNotice
          Devnet.newPurse)).mBlockchain = [1] ∧
        (stateOf (processNewBlock (Devnet.walletEnv Devnet.answering) Devnet.foundNotice
          w')).mBlockchain = [1, 2, 2] := by
  have eval :
      returned Devnet.found = some (some Devnet.foundNotice) ∧
      Devnet.newPurse.mBlockchain =
        (blockIds Devnet.daemonEnv (stateOf Devnet.found).chain.mBlocks).take 1 ∧
      returned Devnet.pulled = some 1 ∧
      (stateOf Devnet.pulled).mBlockchain = [1, 2] ∧
      (stateOf (processNewBlock (Devnet.walletEnv Devnet.answering) Devnet.foundNotice
        Devnet.newPurse)).mBlockchain = [1] ∧
      (stateOf (processNewBlock (Devnet.walletEnv Devnet.answering) Devnet.foundNotice
        (stateOf Devnet.pulled))).mBlockchain = [1, 2, 2] := by
    decide +kernel
  obtain ⟨hfound, hheld, hpulled, hchain, hpush, hagain⟩ := eval
  exact ⟨eq_returned hfound, hheld, stateOf Devnet.pulled, eq_returned hpulled, hchain, hpush, hagain⟩

end DarknetSpace
