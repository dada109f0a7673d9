import DarknetSpace.Core.PushPop

/-!
# The pool through pushes and pops

A push takes the block's transactions out of the pool, and when one of them
fails it gives that one back; the undo behind it throws before it returns any
other. A pop gives back what the transaction index says the block's
transactions are. Everything a run does to the pool comes from these, from the
network, and from the three functions of the pool that are called on their own.

`PushKeeps` and `PoolInvariant` are the two ways to use this. Who has a property of
pools that the three things keep, taking a transaction, giving one back, storing one
from the network, has it of every node of a run (`PoolInvariant.chainInvariant`,
`of_poolRun`); and a push needs only the first two. What a pop gives back is read off
the chain, so a property of the chain's transactions comes into it (`ReadsOnly`).
-/

namespace DarknetSpace

open StateExn

/-! ## A push -/

/-- What a property of the pool has to survive when `bl` is pushed: a
transaction taken, and one taken and given back. The entries of the pool are
among those with `L`. -/
structure PushKeeps (env : Env) (now : Nat) (bl : Block) (L : Hash → TxDetails → Prop)
    (Q : TxMemoryPool → Prop) : Prop where
  take : ∀ {p p' : TxMemoryPool} {id : Hash} {txd : TxDetails}, AllEntries L p →
    p.takeTx env id = some (txd, p') → Q p → Q p'
  back : ∀ {p p₁ p' : TxMemoryPool} {id : Hash} {txd : TxDetails} {zone : Bool} {chain : Storage}
    {v : TxMemoryPool.Verdict}, id ∈ bl.txHashes → AllEntries L p →
    p.takeTx env id = some (txd, p₁) →
    p₁.addTx env now chain (prunedTx zone txd.tx) true [] = .ok (v, p') → Q p → Q p'

namespace PushKeeps

variable {env : Env} {now : Nat} {bl : Block} {L : Hash → TxDetails → Prop}
  {Q : TxMemoryPool → Prop}

/-- Giving the transaction at hand back, and the undo behind it. -/
theorem giveBack (h : PushKeeps env now bl L Q) {α : Type} {rest : Bool → NodeM α} {k : Nat}
    {n : Node} {p : TxMemoryPool} {id : Hash} {txd : TxDetails} {zone : Bool}
    (hid : id ∈ bl.txHashes) (hp : AllEntries L p) (htake : p.takeTx env id = some (txd, n.pool))
    (hrec : Recorded env bl k n.chain) (hk : k ≤ bl.txHashes.length) (hQ : Q p) :
    Q (stateOf ((do
      returnToPool env now (prunedTx zone txd.tx)
      let r ← purgeBlockDataFromBlockchain env now bl k
      rest r) n)).pool := by
  cases hadd : n.pool.addTx env now n.chain (prunedTx zone txd.tx) true [] with
  | error e =>
    have hret : returnToPool env now (prunedTx zone txd.tx) n = .error e n := by
      unfold returnToPool
      rw [hadd]
    rw [bind_of_error hret]
    exact h.take hp htake hQ
  | ok r =>
    obtain ⟨v, pool⟩ := r
    have hret : returnToPool env now (prunedTx zone txd.tx) n = .ok ⟨⟩ { n with pool } := by
      unfold returnToPool
      rw [hadd]
    rw [bind_of_ok hret, bind_of_error (purgeBlockData_unpushed (n := { n with pool }) hrec hk)]
    exact h.back hid hp htake hadd hQ

theorem takeTransactions (h : PushKeeps env now bl L Q) (id : Hash) {k : Nat} {rest : List Hash}
    {n : Node} (hrec : Recorded env bl k n.chain) (hrest : bl.txHashes.drop k = rest)
    (hp : AllEntries L n.pool) (hQ : Q n.pool) :
    Q (stateOf (takeTransactions env now bl id k rest n)).pool := by
  induction rest generalizing k n with
  | nil => exact hQ
  | cons txId rest ih =>
    have hk : k < bl.txHashes.length := by
      by_contra hge
      rw [List.drop_eq_nil_of_le (by omega)] at hrest
      cases hrest
    have hid : bl.txHashes[k]? = some txId := by
      rw [← List.head?_drop, hrest]
      rfl
    have hrest' : bl.txHashes.drop (k + 1) = rest := by
      rw [← List.tail_drop, hrest]
      rfl
    unfold DarknetSpace.takeTransactions
    rw [bind_of_ok (get_apply n)]
    cases htake : n.pool.takeTx env txId with
    | none =>
      simp only
      rw [bind_of_error (purgeBlockData_unpushed hrec hk.le)]
      exact hQ
    | some r =>
      obtain ⟨txd, pool⟩ := r
      simp only
      rw [bind_of_ok (set_apply n { n with pool })]
      have hQ' : Q pool := h.take hp htake hQ
      cases hin : n.chain.checkTxInputs env now (prunedTx n.chain.mIsInCheckpointZone txd.tx) with
      | error e =>
        rw [bind_of_error (readChain_of_error (n := { n with pool }) hin)]
        exact hQ'
      | ok used =>
        rw [bind_of_ok (readChain_of_ok (n := { n with pool }) hin)]
        cases used with
        | none =>
          -- refused inputs: what is given back is the transaction that was taken, pruned or not
          exact h.giveBack (n := { n with pool }) (List.mem_of_getElem? hid) hp htake hrec hk.le hQ
        | some used =>
          simp only
          obtain ⟨entry, s', sa, hadd, htx⟩ | ⟨s', hadd, hsame⟩ | ⟨e, s', hadd, hsame⟩ :=
            addTransactionFromBlock_cases env (prunedTx n.chain.mIsInCheckpointZone txd.tx) txId
              n.chain.mBlocks.length (UInt16.ofNat (k + 1)) n.chain
          · rw [bind_of_ok (onChain_of_ok (n := { n with pool }) hadd)]
            -- recorded, so the rest of the block is taken from a chain with one transaction more
            have htail := ih (n := { n with chain := s', pool }) (hrec.step htx hid) hrest'
              (hp.takeTx htake) hQ'
            simp only
            cases hr : DarknetSpace.takeTransactions env now bl id (k + 1) rest
                { n with chain := s', pool } with
            | error e m =>
              rw [hr] at htail
              rw [bind_of_error hr]
              exact htail
            | ok taken m =>
              rw [hr] at htail
              rw [bind_of_ok hr]
              cases taken <;> exact htail
          · have hframe := addTransactionFromBlock_frame env
              (prunedTx n.chain.mIsInCheckpointZone txd.tx) txId n.chain.mBlocks.length
              (UInt16.ofNat (k + 1)) n.chain.frame n.chain rfl
            rw [hadd] at hframe
            rw [bind_of_ok (onChain_of_ok (n := { n with pool }) hadd)]
            exact h.giveBack (n := { n with chain := s', pool }) (List.mem_of_getElem? hid) hp htake
              (hrec.congr hframe hsame.1) hk.le hQ
          · rw [bind_of_error (onChain_of_error (n := { n with pool }) hadd)]
            exact hQ'

/-- What is behind the transactions does not touch the pool. -/
theorem finishBlock_pool (now : Nat) {bl : Block} (id : Hash) (coinbase : TransactionEntry)
    {taken : List TakenTx} {n : Node} (hrec : Recorded env bl bl.txHashes.length n.chain)
    (hlen : taken.length = bl.txHashes.length) :
    (stateOf (finishBlock env now bl id coinbase taken n)).pool = n.pool := by
  have purge : purgeBlockDataFromBlockchain env now bl taken.length n = .error .indexOverflow n := by
    rw [hlen]
    exact purgeBlockData_unpushed hrec le_rfl
  unfold finishBlock
  cases hval : validateMinerTransaction env n.chain.mBlocks bl (cumulativeBlockSize env bl taken)
      (feeSummary taken) (alreadyGeneratedCoins n.chain.mBlocks) with
  | error e =>
    rw [bind_of_error (readChain_of_error hval)]
    rfl
  | ok v =>
    rw [bind_of_ok (readChain_of_ok hval)]
    cases v with
    | none =>
      simp only
      rw [bind_of_error purge]
      rfl
    | some v =>
      simp only
      rw [bind_of_ok (get_apply n)]
      split
      · rw [bind_of_error purge]
        rfl
      · cases happ : appendBlock env id (newBlockEntry env n.chain bl coinbase taken v.1 v.2)
            n.chain with
        | ok u s' =>
          rw [bind_of_ok (onChain_of_ok happ)]
          rfl
        | error e s' =>
          rw [bind_of_error (onChain_of_error happ)]
          rfl

theorem handleBlockToMainChain (h : PushKeeps env now bl L Q) (id : Hash) {n : Node}
    (hp : AllEntries L n.pool) (hQ : Q n.pool) :
    Q (stateOf (handleBlockToMainChain env now bl id n)).pool := by
  unfold DarknetSpace.handleBlockToMainChain
  rw [bind_of_ok (get_apply n)]
  cases checkBlockHeader env now n.chain bl with
  | some v => exact hQ
  | none =>
    simp only
    rw [bind_of_ok (onChain_modify _ n), bind_of_ok (get_apply _)]
    generalize hz : ({ n with chain := n.chain.setCheckpointZone n.chain.mBlocks.length } : Node) = z
    have hpz : AllEntries L z.pool := by rw [← hz]; exact hp
    have hQz : Q z.pool := by rw [← hz]; exact hQ
    split
    · unfold connectBlock
      rw [bind_of_ok (get_apply z)]
      obtain ⟨txe, s', sa, hadd, htx⟩ | ⟨s', hadd, -⟩ | ⟨e, s', hadd, -⟩ :=
        addTransactionFromBlock_cases env bl.minerTx (getTransactionHash env bl.minerTx)
          z.chain.mBlocks.length 0 z.chain
      · rw [bind_of_ok (onChain_of_ok hadd)]
        simp only
        have hrec : Recorded env bl 0 s' := by
          have hlen : s'.mBlocks.length = z.chain.mBlocks.length := Storage.length_of_frame htx.frame
          refine ⟨⟨0, ?_⟩, fun id hid => ?_⟩
          · rw [htx.transactions, Std.ExtTreeMap.getElem?_insert_self, hlen]
          · rw [List.take_zero] at hid
            cases hid
        have htake := h.takeTransactions id (n := { z with chain := s' }) hrec List.drop_zero hpz hQz
        obtain ⟨taken, m, hr, htaken⟩ | ⟨e, m, hr, -⟩ :=
          takeTransactions_cases now id (n := { z with chain := s' }) hrec List.drop_zero
        · rw [hr] at htake
          rw [bind_of_ok hr]
          show Q (stateOf (finishBlock env now bl id txe taken m)).pool
          rw [finishBlock_pool now id txe (htaken.recorded hrec List.drop_zero) htaken.length]
          exact htake
        · rw [hr] at htake
          rw [bind_of_error hr]
          exact htake
      · rw [bind_of_ok (onChain_of_ok hadd)]
        exact hQz
      · rw [bind_of_error (onChain_of_error hadd)]
        exact hQz
    · exact hQz

end PushKeeps

/-! ## A pop -/

/-- Whatever the transaction index has under `id` is a coinbase or has `R`. -/
def ReadsOnly (R : Transaction → Prop) (s : Storage) (id : Hash) : Prop :=
  ∀ idx txe, s.mTransactions[id]? = some idx → s.transactionByIndex idx = .ok txe →
    isCoinbase txe.tx.toTransactionPrefix = true ∨ R txe.tx

/-- `s` reads its transactions as `s₀` does, those it still has. -/
structure ReadsAs (s₀ s : Storage) : Prop where
  transactions : ∀ (id : Hash) idx, s.mTransactions[id]? = some idx →
    s₀.mTransactions[id]? = some idx
  blocks : forgetFlags s.mBlocks = forgetFlags s₀.mBlocks

theorem ReadsAs.of_frame {s₀ s s' : Storage} (h : ReadsAs s₀ s)
    (ht : s'.mTransactions = s.mTransactions) (hf : s'.frame = s.frame) : ReadsAs s₀ s' := by
  have hb : forgetFlags s'.mBlocks = forgetFlags s.mBlocks := by
    have := congrArg Storage.mBlocks hf
    exact this
  exact ⟨fun id idx hi => h.transactions id idx (by rw [← ht]; exact hi), hb.trans h.blocks⟩

theorem transactionByIndex_congr {s s' : Storage} (h : forgetFlags s.mBlocks = forgetFlags s'.mBlocks)
    {idx : TransactionIndex} {txe : TransactionEntry} (hr : s.transactionByIndex idx = .ok txe) :
    ∃ txe', s'.transactionByIndex idx = .ok txe' ∧ txe'.tx = txe.tx := by
  obtain ⟨e, he, ht⟩ := transactionByIndex_eq_ok.1 hr
  have he' : (forgetFlags s'.mBlocks)[idx.block]? = some e.forgetFlags := by
    rw [← h, forgetFlags, List.getElem?_map, he]
    rfl
  rw [forgetFlags, List.getElem?_map] at he'
  obtain ⟨e', hat, heq⟩ := Option.map_eq_some_iff.1 he'
  have htxs : (e'.forgetFlags.transactions)[idx.transaction.toNat]? = some txe.forgetFlags := by
    rw [heq]
    show (e.transactions.map _)[idx.transaction.toNat]? = _
    rw [List.getElem?_map, ht]
    rfl
  have htxs' : (e'.transactions.map TransactionEntry.forgetFlags)[idx.transaction.toNat]? =
      some txe.forgetFlags := htxs
  rw [List.getElem?_map] at htxs'
  obtain ⟨txe', hat', heq'⟩ := Option.map_eq_some_iff.1 htxs'
  refine ⟨txe', transactionByIndex_eq_ok.2 ⟨e', hat, hat'⟩, ?_⟩
  have := congrArg TransactionEntry.tx heq'
  exact this

theorem ReadsOnly.of_readsAs {R : Transaction → Prop} {s₀ s : Storage} {id : Hash}
    (h : ReadsOnly R s₀ id) (hs : ReadsAs s₀ s) : ReadsOnly R s id := by
  intro idx txe hi hr
  obtain ⟨txe', hr', heq⟩ := transactionByIndex_congr hs.blocks hr
  rw [← heq]
  exact h idx txe' (hs.transactions id idx hi) hr'

section

variable {env : Env} {now : Nat} {R : Transaction → Prop} {Q : TxMemoryPool → Prop} {s₀ : Storage}

/-- The node reads as `s₀` does and its pool has `Q`. -/
def ReadsWith (s₀ : Storage) (Q : TxMemoryPool → Prop) (n : Node) : Prop :=
  ReadsAs s₀ n.chain ∧ Q n.pool

theorem keeps_readsWith_onChain {α : Type} {x : StorageM α} (h : Keeps (ReadsAs s₀) x) :
    Keeps (ReadsWith s₀ Q) (onChain x) := by
  intro n hn
  have hx := h n.chain hn.1
  cases hr : x n.chain with
  | ok a s =>
    rw [hr] at hx
    rw [onChain_of_ok hr]
    exact ⟨hx, hn.2⟩
  | error e s =>
    rw [hr] at hx
    rw [onChain_of_error hr]
    exact ⟨hx, hn.2⟩

theorem keeps_readsAs_purgeKeyimages (tx : Transaction) (strict : Bool) :
    Keeps (ReadsAs s₀) (purgeTransactionKeyimagesFromBlockchain env tx strict) := by
  intro s hs
  have hw := purgeTransactionInputs_withoutSpends env strict s.withoutSpends tx.vin s rfl
  have ht := congrArg Storage.mTransactions hw
  exact hs.of_frame ht (Storage.frame_of_withoutSpends hw)

theorem keeps_readsAs_unprocess (tx : Transaction) :
    Keeps (ReadsAs s₀) (unprocessBlockchainTxExtra env tx) := by
  intro s hs
  have hw := unprocessBlockchainTxExtra_withoutAliases env tx s
  have ht := congrArg Storage.mTransactions hw
  exact hs.of_frame ht (Storage.frame_of_withoutAliases hw)

theorem keeps_readsAs_popTransaction (tx : Transaction) (txId : Hash) :
    Keeps (ReadsAs s₀) (popTransactionFromGlobalIndex env tx txId) := by
  intro s hs
  have hw := popOutputs_withoutOutputs env txId s.withoutOutputs tx.vout.zipIdx.reverse s rfl
  have ht := congrArg Storage.mTransactions hw
  exact hs.of_frame ht (Storage.frame_of_withoutOutputs hw)

theorem keeps_readsWith_purgeTransaction
    (hback : ∀ {p p' : TxMemoryPool} {chain : Storage} {tx : Transaction}
      {v : TxMemoryPool.Verdict}, R tx → p.addTx env now chain tx true [] = .ok (v, p') → Q p → Q p')
    {txId : Hash} (hread : ReadsOnly R s₀ txId) :
    Keeps (ReadsWith s₀ Q) (purgeTransactionFromBlockchain env now txId) := by
  intro n hn
  unfold purgeTransactionFromBlockchain
  rw [bind_of_ok (get_apply n)]
  cases hi : n.chain.mTransactions[txId]? with
  | none => exact hn
  | some idx =>
    simp only
    cases hr : n.chain.transactionByIndex idx with
    | error e =>
      rw [bind_of_error (readChain_of_error hr)]
      exact hn
    | ok txe =>
      rw [bind_of_ok (readChain_of_ok hr)]
      have hgood := hread.of_readsAs hn.1 idx txe hi hr
      refine Keeps.bind (keeps_readsWith_onChain (keeps_readsAs_purgeKeyimages _ _)) (fun _ =>
        Keeps.bind (keeps_readsWith_onChain (keeps_readsAs_unprocess _)) fun r =>
          Keeps.ite ?_ (Keeps.pure _)) n hn
      refine Keeps.bind ?_ fun _ => Keeps.bind
        (keeps_readsWith_onChain (keeps_readsAs_popTransaction _ _)) fun _ =>
          Keeps.bind (Keeps.modify fun n hn => ⟨⟨fun id idx h => ?_, hn.1.blocks⟩, hn.2⟩) fun _ =>
            Keeps.pure _
      · unfold returnOrdinaryToPool
        split
        · exact Keeps.pure _
        · next hcb =>
          intro m hm
          unfold returnToPool
          split
          · next v pool ha => exact ⟨hm.1, hback (hgood.resolve_left hcb) ha hm.2⟩
          · exact hm
      · have h : (n.chain.mTransactions.erase txId)[id]? = some idx := h
        rw [Std.ExtTreeMap.getElem?_erase] at h
        split at h
        · cases h
        · exact hn.1.transactions id idx h

theorem keeps_readsWith_purgeTransactions
    (hback : ∀ {p p' : TxMemoryPool} {chain : Storage} {tx : Transaction}
      {v : TxMemoryPool.Verdict}, R tx → p.addTx env now chain tx true [] = .ok (v, p') → Q p → Q p')
    {ids : List Hash} (hread : ∀ id ∈ ids, ReadsOnly R s₀ id) :
    Keeps (ReadsWith s₀ Q) (purgeTransactions env now ids) := by
  induction ids with
  | nil => exact Keeps.pure _
  | cons id rest ih =>
    obtain ⟨hid, hrest⟩ := List.forall_mem_cons.1 hread
    exact Keeps.bind (keeps_readsWith_purgeTransaction hback hid) fun _ =>
      Keeps.bind (ih hrest) fun _ => Keeps.pure _

/-- The ids a pop of `bei` purges. -/
def purgedIds (env : Env) (bei : BlockEntry) : List Hash :=
  bei.bl.txHashes.reverse ++ [getTransactionHash env bei.bl.minerTx]

theorem popBlock_pool
    (hback : ∀ {p p' : TxMemoryPool} {chain : Storage} {tx : Transaction}
      {v : TxMemoryPool.Verdict}, R tx → p.addTx env now chain tx true [] = .ok (v, p') → Q p → Q p')
    {n : Node} (hread : ∀ bei, n.chain.mBlocks.getLast? = some bei →
      ∀ id ∈ purgedIds env bei, ReadsOnly R n.chain id) (hQ : Q n.pool) :
    Q (stateOf (popBlockFromBlockchain env now n)).pool := by
  unfold popBlockFromBlockchain
  rw [bind_of_ok (modify_apply _ n), bind_of_ok (get_apply _)]
  cases hlast : n.chain.mBlocks.getLast? with
  | none => exact hQ
  | some bei =>
    simp only
    split
    · exact hQ
    · cases hpad : popBlockScratchpadData env bei.bl n.chain.mScratchpad with
      | error e =>
        have hstep : readChain (fun s => popBlockScratchpadData env bei.bl s.mScratchpad)
          { n with popLog := n.popLog ++ [n.chain] } = .error e _ := readChain_of_error hpad
        rw [bind_of_error hstep]
        exact hQ
      | ok p =>
        have hstep : readChain (fun s => popBlockScratchpadData env bei.bl s.mScratchpad)
          { n with popLog := n.popLog ++ [n.chain] } = .ok p _ := readChain_of_ok hpad
        rw [bind_of_ok hstep, bind_of_ok (modify_apply _ _)]
        generalize hz : ({ n with
            chain := { n.chain with mScratchpad := p.2 }, popLog := n.popLog ++ [n.chain] } : Node) = z
        have hstart : ReadsWith n.chain Q z := by
          rw [← hz]
          exact ⟨⟨fun _ _ h => h, rfl⟩, hQ⟩
        have hpurge : Keeps (ReadsWith n.chain Q)
            (purgeBlockDataFromBlockchain env now bei.bl bei.bl.txHashes.length) := by
          unfold purgeBlockDataFromBlockchain
          refine Keeps.ite (Keeps.pure _) (keeps_readsWith_purgeTransactions hback ?_)
          rw [List.take_length]
          exact hread bei hlast
        have hend := hpurge z hstart
        cases hr : purgeBlockDataFromBlockchain env now bei.bl bei.bl.txHashes.length z with
        | error e m =>
          rw [hr] at hend
          rw [bind_of_error hr]
          exact hend.2
        | ok r m =>
          rw [hr] at hend
          rw [bind_of_ok hr]
          have htail : ∀ x : NodeM Bool, Keeps (fun n : Node => Q n.pool) x → Q (stateOf (x m)).pool :=
            fun x hx => hx m hend.2
          refine htail _ (Keeps.ite (Keeps.pure _) (Keeps.bind Keeps.get fun m' =>
            Keeps.ite (Keeps.pure _) (Keeps.bind (Keeps.modify fun n hn => hn) fun _ => Keeps.pure _)))

end

/-! ## Runs -/

theorem allEntries_empty (E : Hash → TxDetails → Prop) : AllEntries E TxMemoryPool.empty := by
  intro id txd hm
  have hnone : (∅ : Map Hash TxDetails)[id]? = none := Std.ExtTreeMap.getElem?_empty
  cases hnone.symm.trans hm

/-- The states of every run that also takes transactions out of the pool, drops
the outdated ones, or clears it. -/
inductive PoolRun (env : Env) : Node → Prop where
  | genesis {checkpoints : Checkpoints} {now depth : Nat} {bl : Block} {n : Node}
      (h : addNewBlock env now depth bl (Node.initial checkpoints) = .ok .added n) : PoolRun env n
  | step {n n' : Node} {now depth : Nat} {ev : Event} (hn : PoolRun env n)
      (h : EndsIn (runEvent env now depth ev n) n') : PoolRun env n'
  | takeTx {n : Node} {id : Hash} {txd : TxDetails} {pool : TxMemoryPool} (hn : PoolRun env n)
      (h : n.pool.takeTx env id = some (txd, pool)) : PoolRun env { n with pool }
  | removeStuck {n : Node} (now : Nat) (order : List Hash) (hn : PoolRun env n) :
      PoolRun env { n with pool := n.pool.removeStuckTransactions env now order }
  | clear {n : Node} (hn : PoolRun env n) : PoolRun env { n with pool := .empty }

theorem Reachable.poolRun {env : Env} {n : Node} (h : Reachable env n) : PoolRun env n := by
  induction h with
  | genesis hg => exact .genesis hg
  | step _ hends ih => exact .step ih hends

/-- A property of the pool that its two writers keep, on transactions with
`G`. -/
structure PoolInvariant (env : Env) (G : TransactionPrefix → Prop) (Q : TxMemoryPool → Prop) :
    Prop where
  empty : Q TxMemoryPool.empty
  take : ∀ {p p' : TxMemoryPool} {id : Hash} {txd : TxDetails}, PoolSound env G p →
    p.takeTx env id = some (txd, p') → Q p → Q p'
  add : ∀ {p p' : TxMemoryPool} {now : Nat} {chain : Storage} {tx : Transaction} {kept : Bool}
    {name : Blob} {v : TxMemoryPool.Verdict}, PoolSound env G p → G tx.toTransactionPrefix →
    p.addTx env now chain tx kept name = .ok (v, p') → Q p → Q p'

/-- An outdated entry goes as if it were taken. -/
theorem removeIfStuck_cases (env : Env) (now : Nat) (p : TxMemoryPool) (id : Hash) :
    p.removeIfStuck env now id = p ∨
      ∃ txd, p.takeTx env id = some (txd, p.removeIfStuck env now id) := by
  unfold TxMemoryPool.removeIfStuck TxMemoryPool.takeTx
  split
  · exact .inl rfl
  · next txd _ =>
    split
    · refine .inr ⟨txd, congrArg (fun q => some (txd, q)) ?_⟩
      unfold TxMemoryPool.removeAliasTxPair
      simp only
      cases p.mAliasesToTxid.toList.find? (·.2 == id) <;> rfl
    · exact .inl rfl

namespace PoolInvariant

variable {env : Env} {G : TransactionPrefix → Prop} {Q : TxMemoryPool → Prop}

theorem pushKeeps (h : PoolInvariant env G Q) (now : Nat) (bl : Block) :
    PushKeeps env now bl (PoolEntrySound env G) Q := by
  refine ⟨fun hp ht hQ => h.take hp ht hQ, fun {p p₁ p' id txd zone chain v} _ hp ht ha hQ => ?_⟩
  obtain ⟨hentry, hp₁⟩ := PoolSound.takeTx hp ht
  refine h.add hp₁ ?_ ha (h.take hp ht hQ)
  rw [prunedTx_toPrefix]
  exact hentry.good

/-- Soundness and the property, through everything a run does to the chain. -/
theorem chainInvariant (h : PoolInvariant env G Q) :
    ChainInvariant env fun n => Sound env G n ∧ Q n.pool := by
  have hsound : ChainInvariant env fun n => Sound env G n ∧ True :=
    BlocksInvariant.chainInvariant (A := fun _ => True) ⟨fun _ _ _ _ => trivial,
      fun _ _ _ => trivial, fun _ _ _ _ => trivial⟩
  refine ⟨fun now bl n hn => ?_, fun now n hn => ?_, fun n alts invalid zone hn => ?_⟩
  · have hs := hsound.push now bl n ⟨hn.1, trivial⟩
    have hq := (h.pushKeeps now bl).handleBlockToMainChain (getBlockHash env bl) hn.1.pool hn.2
    cases hr : handleBlockToMainChain env now bl (getBlockHash env bl) n with
    | ok v n' =>
      rw [hr] at hs hq
      exact ⟨hs.1, hq⟩
    | error e n' =>
      rw [hr] at hs hq
      exact fun he => ⟨(hs he).1, hq⟩
  · have hs := hsound.pop now n ⟨hn.1, trivial⟩
    -- soundness of the pool is part of what has to be kept on the way
    have hq : PoolSound env G (stateOf (popBlockFromBlockchain env now n)).pool ∧
        Q (stateOf (popBlockFromBlockchain env now n)).pool := by
      refine popBlock_pool (R := fun tx => G tx.toTransactionPrefix)
        (Q := fun p => PoolSound env G p ∧ Q p) ?_ ?_ ⟨hn.1.pool, hn.2⟩
      · intro p p' chain tx v hG ha hp
        exact ⟨hp.1.addTx hG ha, h.add hp.1 hG ha hp.2⟩
      · intro bei _ id _ idx txe _ hr
        exact hn.1.txs.read hr
    cases hr : popBlockFromBlockchain env now n with
    | ok v n' =>
      rw [hr] at hs hq
      exact ⟨hs.1, hq.2⟩
    | error e n' =>
      rw [hr] at hs hq
      exact fun he => ⟨(hs he).1, hq.2⟩
  · exact ⟨(hsound.side n alts invalid zone ⟨hn.1, trivial⟩).1, hn.2⟩

theorem handleIncomingTx (h : PoolInvariant env G Q) (hG : Admitted env G) (now : Nat) (blob : Blob)
    (kept : Bool) {n : Node} (hn : Sound env G n ∧ Q n.pool) :
    Sound env G (stateOf (handleIncomingTx env now blob kept n)) ∧
      Q (stateOf (handleIncomingTx env now blob kept n)).pool := by
  have hsound : Sound env G (stateOf (DarknetSpace.handleIncomingTx env now blob kept n)) := by
    obtain ⟨pool, hstate, hpool⟩ := handleIncomingTx_poolOnly (hG blob) now kept hn.1.pool
    rw [hstate]
    exact ⟨hn.1.index, hn.1.outputs, hn.1.txs, hpool⟩
  refine ⟨hsound, ?_⟩
  unfold DarknetSpace.handleIncomingTx
  rw [bind_of_ok (get_apply n)]
  split
  · exact hn.2
  · cases hparse : env.parseTx blob with
    | none => exact hn.2
    | some tx =>
      simp only
      split
      · exact hn.2
      · next hsem =>
        cases hextra : parseAndValidateTxExtra env tx.toTransactionPrefix with
        | error e => exact hn.2
        | ok r =>
          obtain ⟨ok, ei⟩ := r
          cases ok with
          | false => exact hn.2
          | true =>
            have hgood : G tx.toTransactionPrefix :=
              hG blob tx hparse _ _ (by simpa using hsem) ei hextra
            show Q (stateOf (addNewTx env now tx kept ei.mAlias.mAlias n)).pool
            unfold addNewTx
            simp only
            split
            · exact hn.2
            · split
              · next v pool ha => exact h.add hn.1.pool hgood ha hn.2
              · exact hn.2

theorem taken (h : PoolInvariant env G Q) {p p' : TxMemoryPool} {id : Hash} {txd : TxDetails}
    (ht : p.takeTx env id = some (txd, p')) (hp : PoolSound env G p ∧ Q p) :
    PoolSound env G p' ∧ Q p' :=
  ⟨(hp.1.takeTx ht).2, h.take hp.1 ht hp.2⟩

theorem removeStuck (h : PoolInvariant env G Q) (now : Nat) (order : List Hash) {p : TxMemoryPool}
    (hp : PoolSound env G p ∧ Q p) :
    PoolSound env G (p.removeStuckTransactions env now order) ∧
      Q (p.removeStuckTransactions env now order) := by
  unfold TxMemoryPool.removeStuckTransactions
  induction order generalizing p with
  | nil => exact hp
  | cons id rest ih =>
    refine ih ?_
    obtain hsame | ⟨txd, ht⟩ := removeIfStuck_cases env now p id
    · rw [hsame]
      exact hp
    · exact h.taken ht hp

/-- The property holds in every run. -/
theorem of_poolRun (h : PoolInvariant env G Q) (hG : Admitted env G) {n : Node}
    (hn : PoolRun env n) : Sound env G n ∧ Q n.pool := by
  have hinv := h.chainInvariant
  induction hn with
  | @genesis checkpoints now depth bl n hg =>
    have hfirst : Sound env G (Node.initial checkpoints) ∧ Q (Node.initial checkpoints).pool :=
      ⟨Sound.initial env G checkpoints, h.empty⟩
    exact (hinv.push now bl).ok hfirst (addNewBlock_initial hg)
  | @step n n' now depth ev _ hends ih =>
    have hev : KeepsUpTo Survivable (fun n => Sound env G n ∧ Q n.pool)
        (runEvent env now depth ev) := by
      cases ev with
      | incomingTx blob kept =>
        refine .bind (Keeps.upTo fun n hn => h.handleIncomingTx hG now blob kept hn) fun v => ?_
        exact ChainInvariant.keeps_pure _
      | newBlock bl => exact .bind (hinv.addNewBlock now depth bl) fun v => ChainInvariant.keeps_pure _
    rcases hends with ⟨a, hr⟩ | hr
    · exact hev.ok ih hr
    · exact hev.error ih hr rfl
  | takeTx _ ht ih =>
    obtain ⟨hp, hq⟩ := h.taken ht ⟨ih.1.pool, ih.2⟩
    exact ⟨⟨ih.1.index, ih.1.outputs, ih.1.txs, hp⟩, hq⟩
  | removeStuck now order _ ih =>
    obtain ⟨hp, hq⟩ := h.removeStuck now order ⟨ih.1.pool, ih.2⟩
    exact ⟨⟨ih.1.index, ih.1.outputs, ih.1.txs, hp⟩, hq⟩
  | clear _ ih =>
    have hp : PoolSound env G TxMemoryPool.empty := allEntries_empty _
    exact ⟨⟨ih.1.index, ih.1.outputs, ih.1.txs, hp⟩, h.empty⟩

end PoolInvariant

/-! ## The sizes the pool keeps -/

/-- The size an entry carries is the size of its transaction. -/
theorem Reachable.pool_blobSize {env : Env} {n : Node} (hn : Reachable env n) :
    AllEntries (fun _ txd => txd.blobSize = getObjectBlobsize env txd.tx.toTransactionPrefix)
      n.pool := by
  have hinv : PoolInvariant env (fun _ => True) (AllEntries fun _ txd =>
      txd.blobSize = getObjectBlobsize env txd.tx.toTransactionPrefix) := by
    refine ⟨allEntries_empty _, fun _ ht hQ => hQ.takeTx ht, fun _ _ ha hQ => hQ.addTx ?_ ha⟩
    intro i o _ kept maxUsed
    rfl
  exact (hinv.of_poolRun (guaranteed_true env).admitted hn.poolRun).2

end DarknetSpace
