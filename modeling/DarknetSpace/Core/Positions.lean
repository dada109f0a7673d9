import DarknetSpace.Core.FarLine
import DarknetSpace.Core.Pooled
import DarknetSpace.Core.Supply
import DarknetSpace.Core.Tower
import Mathlib.Algebra.Order.BigOperators.Group.List
import Mathlib.Algebra.Order.Ring.Nat

/-!
# Positions in 16 bits

`TransactionIndex` keeps the place of a transaction in its block in a
`uint16_t`, `m_outputs` the place of an output in its transaction, and
`rebuildcache` counts both with a `uint16_t`. Nothing checks the counts. An
ordinary transaction pays to keys only, thirty-five bytes an output, so the
block's size limit keeps it small enough. The outputs of a coinbase are not
looked at, except the last two, and an empty script takes four bytes.

`VisitsEachOnce` is about a loop with such a counter alone, and `Filed` about what is
kept under an id. What the size of a block leaves room for is counted in bytes, 36 for a
transaction at least and 35 for an output to a key. Main result:
`added_positions_fit_iff`, from the numbers of the block, and with the size limit from
those of its coinbase only.
-/

namespace DarknetSpace

open StateExn

/-! ## A loop with a 16-bit counter -/

/-- What `for (uint16_t i = c; i < size; ++i)` visits; `none` when the fuel
runs out. -/
def visits (size : Nat) : (fuel : Nat) → (c : UInt16) → Option (List Nat)
  | 0, _ => none
  | fuel + 1, c => if c.toNat < size then (visits size fuel (c + 1)).map (c.toNat :: ·) else some []

/-- The loop ends after one visit to each place. -/
def VisitsEachOnce (size : Nat) : Prop := ∃ fuel, visits size fuel 0 = some (List.range size)

theorem visits_of_lt {size : Nat} (h : size < 65536) (k : Nat) (hk : k ≤ size) :
    visits size (k + 1) (UInt16.ofNat (size - k)) = some ((List.range k).map (size - k + ·)) := by
  induction k with
  | zero =>
    have hc : (UInt16.ofNat (size - 0)).toNat = size := UInt16.toNat_ofNat_of_lt' (by simpa using h)
    unfold visits
    rw [hc, if_neg (Nat.lt_irrefl size)]
    rfl
  | succ k ih =>
    have hc : (UInt16.ofNat (size - (k + 1))).toNat = size - (k + 1) :=
      UInt16.toNat_ofNat_of_lt' (by show size - (k + 1) < 65536; omega)
    have hnext : UInt16.ofNat (size - (k + 1)) + 1 = UInt16.ofNat (size - k) := by
      rw [show size - k = size - (k + 1) + 1 by omega, UInt16.ofNat_add]
      rfl
    unfold visits
    rw [hc, if_pos (by omega), hnext, ih (by omega), Option.map_some, List.range_succ_eq_map,
      List.map_cons, List.map_map, Nat.add_zero]
    refine congrArg (fun l => some (_ :: l)) (List.map_congr_left fun i _ => ?_)
    show size - k + i = size - (k + 1) + (i + 1)
    omega

/-- From 65536 on, the counter never gets to the end. -/
theorem visits_of_le {size : Nat} (h : 65536 ≤ size) (fuel : Nat) (c : UInt16) :
    visits size fuel c = none := by
  induction fuel generalizing c with
  | zero => rfl
  | succ fuel ih =>
    have hc := c.toNat_lt
    unfold visits
    rw [if_pos (by omega), ih, Option.map_none]

theorem visitsEachOnce_iff {size : Nat} : VisitsEachOnce size ↔ size < 65536 := by
  constructor
  · intro ⟨fuel, hv⟩
    by_contra hle
    rw [visits_of_le (by omega)] at hv
    cases hv
  · intro h
    have hv := visits_of_lt h size (Nat.le_refl size)
    rw [Nat.sub_self] at hv
    refine ⟨size + 1, hv.trans ?_⟩
    rw [List.map_congr_left (g := id) fun i _ => Nat.zero_add i, List.map_id]

/-! ## What is filed under a transaction -/

/-- The indexes have the transaction at `idx`, and every output of it where its
entry says. -/
structure Filed (env : Env) (s : Storage) (txe : TransactionEntry) (idx : TransactionIndex) :
    Prop where
  transaction : s.mTransactions[getTransactionHash env txe.tx]? = some idx
  outputs : ∀ o out, txe.tx.vout[o]? = some out → ∃ g, txe.mGlobalOutputIndexes[o]? = some g ∧
    (s.mOutputs.getD out.amount [])[g]? = some (idx, UInt16.ofNat o)

section

variable {env : Env} {tx : Transaction} {txId : Hash} {idx : TransactionIndex} {s sa s' : Storage}
  {txe : TransactionEntry}

theorem TxRecorded.filed (h : TxRecorded env tx txId idx s sa s' txe)
    (hid : getTransactionHash env txe.tx = txId) : Filed env s' txe idx := by
  refine ⟨?_, fun o out ho => ?_⟩
  · rw [h.transactions, hid, Std.ExtTreeMap.getElem?_insert_self]
  · rw [h.entry] at ho ⊢
    rw [h.outputs]
    have hindex : ∃ g, (pushOutputs idx 0 tx.vout s.mOutputs).2[o]? = some g ∧
        ((pushOutputs idx 0 tx.vout s.mOutputs).1.getD out.amount [])[g]? =
          some (idx, UInt16.ofNat (0 + o)) := pushOutputs_index ho
    rw [Nat.zero_add] at hindex
    exact hindex

/-- A transaction recorded later leaves it where it is. -/
theorem Filed.recorded {txe' : TransactionEntry} {idx' : TransactionIndex}
    (hf : Filed env s txe' idx') (h : TxRecorded env tx txId idx s sa s' txe) :
    Filed env s' txe' idx' := by
  refine ⟨?_, fun o out ho => ?_⟩
  · have hne : getTransactionHash env txe'.tx ≠ txId := by
      intro heq
      have := hf.transaction
      rw [heq, h.fresh] at this
      cases this
    rw [h.transactions, Std.ExtTreeMap.getElem?_insert,
      if_neg fun hc => hne (Std.LawfulEqCmp.eq_of_compare hc).symm]
    exact hf.transaction
  · obtain ⟨g, hg, hat⟩ := hf.outputs o out ho
    refine ⟨g, hg, ?_⟩
    rw [h.outputs, getD_pushOutputs,
      List.getElem?_append_left (List.getElem?_eq_some_iff.1 hat).1]
    exact hat

theorem Filed.taken {now k : Nat} {ids : List Hash} {n n' : Node} {taken : List TakenTx}
    (hf : Filed env n.chain txe idx) (h : TxsTaken env now k ids n taken n') :
    Filed env n'.chain txe idx := by
  induction h with
  | nil => exact hf
  | cons _ _ hr _ ih => exact ih (hf.recorded hr)

/-- The transactions of a block are filed in the order they were taken. -/
theorem TxsTaken.filed {now k : Nat} {ids : List Hash} {n n' : Node} {taken : List TakenTx}
    (h : TxsTaken env now k ids n taken n')
    (hids : ids = taken.map fun t => getTransactionHash env t.entry.tx) (t : Nat)
    (htxe : (taken.map (·.entry))[t]? = some txe) :
    Filed env n'.chain txe ⟨n.chain.mBlocks.length, UInt16.ofNat (k + t + 1)⟩ := by
  induction h generalizing t with
  | nil => cases htxe
  | @cons k txId rest n n' txd pool used sa s' entry taken _ _ hr htail ih =>
    rw [List.map_cons, List.cons.injEq] at hids
    have hlen : s'.mBlocks.length = n.chain.mBlocks.length := Storage.length_of_frame hr.frame
    cases t with
    | zero =>
      cases htxe
      exact Filed.taken (hr.filed hids.1.symm) htail
    | succ t =>
      have := ih hids.2 t htxe
      rw [show ({ n with chain := s', pool } : Node).chain.mBlocks.length = n.chain.mBlocks.length
        from hlen, show k + 1 + t + 1 = k + (t + 1) + 1 by omega] at this
      exact this

end

/-! ## An added block -/

section

variable {env : Env} {now : Nat} {bl : Block} {n n' : Node}

theorem Connected.filed (c : Connected env now bl (getBlockHash env bl) n n')
    {G : TransactionPrefix → Prop} (hn : Sound env G n) {t : Nat} {txe : TransactionEntry}
    (htxe : c.entry.transactions[t]? = some txe) :
    Filed env n'.chain txe ⟨n.chain.mBlocks.length, UInt16.ofNat t⟩ := by
  have hm : Filed env c.m.chain txe ⟨n.chain.mBlocks.length, UInt16.ofNat t⟩ := by
    rw [c.entry_transactions] at htxe
    cases t with
    | zero =>
      cases htxe
      exact Filed.taken (n := { n with chain := c.s₁ })
        (c.recorded.filed (by rw [c.coinbase_tx])) c.txs
    | succ t =>
      have := c.txs.filed (c.txs.pool hn.pool).2.1 t htxe
      rw [show ({ n with chain := c.s₁ } : Node).chain.mBlocks.length = n.chain.mBlocks.length from
        congrArg List.length c.coinbase_blocks, Nat.zero_add] at this
      exact this
  rw [c.chain_eq hn.sync]
  exact ⟨hm.transaction, hm.outputs⟩

/-- The block at `height` is one whose positions fit: every position is below
65536, the 16-bit numbers in the indexes are the true positions, and the loops
of `rebuildcache` over it end. -/
structure PositionsFit (env : Env) (s : Storage) (height : Nat) (e : BlockEntry) : Prop where
  transactions : ∀ t < e.transactions.length, t < 65536
  outputs : ∀ txe ∈ e.transactions, ∀ o < txe.tx.vout.length, o < 65536
  transaction_stored : ∀ (t : Nat) txe, e.transactions[t]? = some txe →
    ∃ idx, s.mTransactions[getTransactionHash env txe.tx]? = some idx ∧ idx.block = height ∧
      idx.transaction.toNat = t
  output_stored : ∀ (t : Nat) (txe : TransactionEntry) (o : Nat) (out : TxOut),
    e.transactions[t]? = some txe → txe.tx.vout[o]? = some out →
    ∃ (g : Nat) (idx : TransactionIndex) (pos : UInt16), txe.mGlobalOutputIndexes[o]? = some g ∧
      (s.mOutputs.getD out.amount [])[g]? = some (idx, pos) ∧ idx.block = height ∧
      idx.transaction.toNat = t ∧ pos.toNat = o
  transactions_loop : VisitsEachOnce e.transactions.length
  outputs_loop : ∀ txe ∈ e.transactions, VisitsEachOnce txe.tx.vout.length

theorem Connected.positionsFit_iff (c : Connected env now bl (getBlockHash env bl) n n')
    {G : TransactionPrefix → Prop} (hn : Sound env G n) :
    PositionsFit env n'.chain n.chain.mBlocks.length c.entry ↔ FitsRebuild c.entry := by
  constructor
  · intro h
    exact ⟨visitsEachOnce_iff.1 h.transactions_loop,
      fun txe ht => visitsEachOnce_iff.1 (h.outputs_loop txe ht)⟩
  · intro ⟨htx, hout⟩
    have htpos : ∀ {t : Nat} {txe : TransactionEntry}, c.entry.transactions[t]? = some txe →
        (UInt16.ofNat t).toNat = t := by
      intro t txe h
      have := (List.getElem?_eq_some_iff.1 h).1
      exact UInt16.toNat_ofNat_of_lt' (by show t < 65536; omega)
    refine ⟨fun t ht => ht.trans htx, fun txe ht o ho => ho.trans (hout txe ht), ?_, ?_, ?_, ?_⟩
    · intro t txe h
      exact ⟨_, (c.filed hn h).transaction, rfl, htpos h⟩
    · intro t txe o out h ho
      obtain ⟨g, hg, hat⟩ := (c.filed hn h).outputs o out ho
      refine ⟨g, _, _, hg, hat, rfl, htpos h, ?_⟩
      have hlt := (List.getElem?_eq_some_iff.1 ho).1
      have := hout txe (List.mem_of_getElem? h)
      exact UInt16.toNat_ofNat_of_lt' (by show o < 65536; omega)
    · exact visitsEachOnce_iff.2 htx
    · intro txe ht
      exact visitsEachOnce_iff.2 (hout txe ht)

/-- The counts are those of the block and of the pool's transactions it lists. -/
theorem Connected.fitsRebuild_iff (c : Connected env now bl (getBlockHash env bl) n n') :
    FitsRebuild c.entry ↔ bl.minerTx.vout.length < 65536 ∧ bl.txHashes.length < 65535 ∧
      ∀ txd, ListedTx n bl txd → txd.tx.vout.length < 65536 := by
  have hlen : c.entry.transactions.length = bl.txHashes.length + 1 := by
    rw [c.entry_transactions, List.length_cons, List.length_map, c.txs.fromPool.length_eq]
  rw [← c.forall_ordinary_iff fun p => p.vout.length < 65536]
  unfold FitsRebuild
  rw [hlen]
  constructor
  · intro ⟨htx, hout⟩
    rw [c.entry_transactions] at hout
    refine ⟨?_, by omega, fun tx htx => ?_⟩
    · have := hout c.coinbase List.mem_cons_self
      rwa [c.coinbase_tx] at this
    · obtain ⟨t, ht, rfl⟩ := List.mem_map.1 htx
      exact hout t.entry (List.mem_cons_of_mem _ (List.mem_map_of_mem ht))
  · intro ⟨hcb, htx, hout⟩
    refine ⟨by omega, fun txe ht => ?_⟩
    rw [c.entry_transactions] at ht
    rcases List.mem_cons.1 ht with rfl | ht
    · rw [c.coinbase_tx]
      exact hcb
    · obtain ⟨t, hmem, rfl⟩ := List.mem_map.1 ht
      exact hout t.entry.tx (List.mem_map_of_mem hmem)

/-! ## What the size of a block leaves room for -/

theorem getBlockReward_size {medianSize size height : Nat} {generated reward : UInt64}
    (h : getBlockReward medianSize size generated height = some reward) :
    size ≤ 2 * max medianSize (getBlockGrantedFullRewardZone height) := by
  unfold getBlockReward at h
  simp only at h
  split at h
  · omega
  · split at h
    · cases h
    · omega

theorem getBlockGrantedFullRewardZone_le (height : Nat) :
    getBlockGrantedFullRewardZone height ≤ 1000000 := by
  unfold getBlockGrantedFullRewardZone
  split
  · decide
  · exact Nat.le_refl _

theorem Connected.size_le (c : Connected env now bl (getBlockHash env bl) n n')
    (hmedian : median (Storage.lastBlocksSizes n.chain.mBlocks) ≤ 1146880) :
    cumulativeBlockSize env bl c.taken ≤ 2293760 := by
  have hr := getBlockReward_size (validateMinerTransaction_some c.reward).1
  rw [← lastBlocksSizes_forgetFlags, c.forgetFlags_eq, lastBlocksSizes_forgetFlags] at hr
  have := getBlockGrantedFullRewardZone_le (getBlockHeight bl).toNat
  omega

/-- An ordinary transaction of a version the parser knows. -/
def OrdinaryTx (tx : TransactionPrefix) : Prop :=
  SpendsKeys tx ∧ tx.version.toNat ≤ currentTransactionVersion

theorem admitted_ordinaryTx (hparse : ∀ blob tx, env.parseTx blob = some tx →
    tx.version.toNat ≤ currentTransactionVersion) : Admitted env OrdinaryTx := by
  intro blob tx hb s kept hsem _ _
  refine ⟨⟨?_, ?_, ?_⟩, hparse blob tx hb⟩
  all_goals
    unfold checkTxSemantic at hsem
    simp only [Bool.and_eq_true] at hsem
    obtain ⟨⟨⟨⟨⟨⟨hvin, htypes⟩, houts⟩, -⟩, -⟩, -⟩, -⟩ := hsem
  · intro hnil
    rw [hnil] at hvin
    cases hvin
  · intro i hi
    have := List.all_eq_true.1 htypes i hi
    cases i with
    | toKey amount offs kImage => exact ⟨amount, offs, kImage, rfl⟩
    | _ => cases this
  · intro o ho
    have := List.all_eq_true.1 houts o ho
    cases ht : o.target with
    | toKey key mix => exact ⟨key, mix, rfl⟩
    | _ =>
      rw [ht] at this
      cases this

theorem OrdinaryTx.size {tx : TransactionPrefix} (h : OrdinaryTx tx)
    (hsize : env.prefixBlobsize = serializedPrefixSize) :
    35 * tx.vout.length + 36 ≤ getObjectBlobsize env tx := by
  have hpre := h.1.size h.2
  have hone : 1 ≤ getVarintPackedSize tx.vin.length := by
    unfold getVarintPackedSize
    repeat' split
    all_goals omega
  have hcb : isCoinbase tx = false := by
    unfold isCoinbase
    split
    · next height hv =>
      obtain ⟨_, _, _, he⟩ := h.1.vin (.gen height) (by rw [hv]; exact List.mem_singleton.2 rfl)
      cases he
    · rfl
  unfold getObjectBlobsize
  rw [hcb, if_neg Bool.false_ne_true, hsize]
  omega

/-- What the listed transactions take up in the block. -/
theorem TxsTaken.sizes {k : Nat} {ids : List Hash} {m m' : Node} {taken : List TakenTx}
    (h : TxsTaken env now k ids m taken m') (hp : PoolSound env OrdinaryTx m.pool)
    (hb : AllEntries (fun _ txd => txd.blobSize = getObjectBlobsize env txd.tx.toTransactionPrefix)
      m.pool) (hsize : env.prefixBlobsize = serializedPrefixSize) :
    ∀ t ∈ taken, 35 * t.entry.tx.vout.length + 36 ≤ t.blobSize := by
  induction h with
  | nil =>
    intro t ht
    cases ht
  | @cons k txId rest m m' txd pool used sa s' entry taken htake _ hr _ ih =>
    obtain ⟨hentry, hpool⟩ := hp.takeTx htake
    have hblob := hb txId txd (takeTx_transactions htake).1
    intro t ht
    rcases List.mem_cons.1 ht with rfl | ht
    · have hvout : entry.tx.vout = txd.tx.vout := by
        have : entry.tx.toTransactionPrefix = txd.tx.toTransactionPrefix := by
          rw [hr.entry]
          exact prunedTx_toPrefix _ _
        rw [this]
      show 35 * entry.tx.vout.length + 36 ≤ txd.blobSize
      rw [hvout, hblob]
      exact hentry.good.size hsize
    · exact ih hpool (hb.takeTx htake) t ht

theorem sum_ge_of_forall {taken : List TakenTx} (h : ∀ t ∈ taken, 36 ≤ t.blobSize) :
    36 * taken.length ≤ (taken.map (·.blobSize)).sum := by
  induction taken with
  | nil => exact Nat.le_refl 0
  | cons t rest ih =>
    obtain ⟨ht, hrest⟩ := List.forall_mem_cons.1 h
    have := ih hrest
    rw [List.map_cons, List.sum_cons, List.length_cons]
    omega

/-- In a block of at most 2293760 bytes, the ordinary transactions and their
outputs can be counted in 16 bits. -/
theorem Connected.ordinary_fit (c : Connected env now bl (getBlockHash env bl) n n')
    (hp : PoolSound env OrdinaryTx n.pool)
    (hb : AllEntries (fun _ txd => txd.blobSize = getObjectBlobsize env txd.tx.toTransactionPrefix)
      n.pool) (hsize : env.prefixBlobsize = serializedPrefixSize)
    (hle : cumulativeBlockSize env bl c.taken ≤ 2293760) :
    bl.txHashes.length < 65535 ∧ ∀ txd, ListedTx n bl txd → txd.tx.vout.length < 65536 := by
  have hsizes := c.txs.sizes hp hb hsize
  have hsum := sum_ge_of_forall fun t ht => (by have := hsizes t ht; omega : 36 ≤ t.blobSize)
  have hcount : bl.txHashes.length = c.taken.length := c.txs.fromPool.length_eq
  unfold cumulativeBlockSize at hle
  refine ⟨by omega, ?_⟩
  refine (c.forall_ordinary_iff fun p => p.vout.length < 65536).1 fun tx htx => ?_
  obtain ⟨t, ht, rfl⟩ := List.mem_map.1 htx
  have hone := hsizes t ht
  have hmem : t.blobSize ≤ (c.taken.map (·.blobSize)).sum :=
    List.le_sum_of_mem (List.mem_map_of_mem ht)
  omega

/-- The block just added has positions that fit. -/
def AddedFits (env : Env) (n n' : Node) : Prop :=
  ∃ e, n'.chain.mBlocks[n.chain.mBlocks.length]? = some e ∧
    PositionsFit env n'.chain n.chain.mBlocks.length e

theorem Connected.addedFits_iff (c : Connected env now bl (getBlockHash env bl) n n')
    {G : TransactionPrefix → Prop} (hn : Sound env G n) :
    AddedFits env n n' ↔ PositionsFit env n'.chain n.chain.mBlocks.length c.entry := by
  have hlast : n'.chain.mBlocks[n.chain.mBlocks.length]? = some c.entry := by
    rw [c.chain_eq hn.sync, ← c.length]
    exact List.getElem?_concat_length
  constructor
  · intro ⟨e, he, hfit⟩
    rw [hlast] at he
    cases he
    exact hfit
  · intro hfit
    exact ⟨c.entry, hlast, hfit⟩

/-- A block that is added has positions that fit exactly when its counts do,
and as long as the median size is not much above the enlarged zone only the
coinbase can break them. -/
theorem added_positions_fit_iff (hsize : env.prefixBlobsize = serializedPrefixSize)
    (hparse : ∀ blob tx, env.parseTx blob = some tx →
      tx.version.toNat ≤ currentTransactionVersion)
    (hn : Reachable env n)
    (hadd : handleBlockToMainChain env now bl (getBlockHash env bl) n = .ok .added n') :
    (AddedFits env n n' ↔ bl.minerTx.vout.length < 65536 ∧ bl.txHashes.length < 65535 ∧
      ∀ txd, ListedTx n bl txd → txd.tx.vout.length < 65536) ∧
    (median (Storage.lastBlocksSizes n.chain.mBlocks) ≤ 1146880 →
      (AddedFits env n n' ↔ bl.minerTx.vout.length < 65536)) := by
  obtain ⟨c⟩ := handleBlockToMainChain_added hadd
  have hsound := (hn.sound_of_admitted (admitted_ordinaryTx hparse)).1
  have hiff : AddedFits env n n' ↔ bl.minerTx.vout.length < 65536 ∧ bl.txHashes.length < 65535 ∧
      ∀ txd, ListedTx n bl txd → txd.tx.vout.length < 65536 := by
    rw [c.addedFits_iff hsound, c.positionsFit_iff hsound, c.fitsRebuild_iff]
  refine ⟨hiff, fun hmedian => ?_⟩
  have hord := c.ordinary_fit hsound.pool hn.pool_blobSize hsize (c.size_le hmedian)
  rw [hiff]
  constructor
  · intro h
    exact h.1
  · intro h
    exact ⟨h, hord⟩

end

/-! ## Blocks of the line at height 147000 -/

namespace FarLine

theorem parse_version (blob : Blob) (tx : Transaction) (h : env.parseTx blob = some tx) :
    tx.version.toNat ≤ currentTransactionVersion := by
  have := (Option.filter_eq_some_iff.1 h).2
  exact of_decide_eq_true this

/-- The line at height 147000, where the zone is enlarged, and the block it
takes next. -/
theorem exists_added {scripts : Nat} (h : 4 * scripts + 166 ≤ 1000000) :
    ∃ n n', Reachable env n ∧ n.chain.mBlocks.length = 147000 ∧
      handleBlockToMainChain env 10000000 (block 147000 scripts)
        (getBlockHash env (block 147000 scripts)) n = .ok .added n' := by
  obtain ⟨n, hat, hreach⟩ := exists_reachable steady_env (show 0 < 147000 by omega) (by omega)
  have hzone : getBlockGrantedFullRewardZone 147000 = 1000000 := by decide
  obtain ⟨n', hadd⟩ := hat.added steady_env (by omega) (by rw [hzone]; exact h)
    (show 60 * 147000 ≤ 10000000 by omega)
  exact ⟨n, n', hreach, hat.length, hadd⟩

end FarLine

/-- At height 147000, a coinbase with its three payments. -/
theorem added_positions_fit_at_147000 :
    ∃ n n', Reachable FarLine.env n ∧
      getBlockGrantedFullRewardZone n.chain.mBlocks.length =
        currencyBlockGrantedFullRewardZoneEnlarge ∧
      handleBlockToMainChain FarLine.env 10000000 (FarLine.block 147000 0)
        (getBlockHash FarLine.env (FarLine.block 147000 0)) n = .ok .added n' ∧
      AddedFits FarLine.env n n' := by
  obtain ⟨n, n', hn, hlen, hadd⟩ := FarLine.exists_added (show 4 * 0 + 166 ≤ 1000000 by omega)
  refine ⟨n, n', hn, by rw [hlen]; decide, hadd, ?_⟩
  refine (added_positions_fit_iff rfl FarLine.parse_version hn hadd).1.2 ⟨?_, ?_, ?_⟩
  · decide
  · decide
  · intro txd ⟨id, hid, _⟩
    cases hid

/-- At height 147000, a coinbase with 65536 empty outputs in front. -/
theorem coinbase_positions_overflow :
    ∃ n n', Reachable FarLine.env n ∧
      getBlockGrantedFullRewardZone n.chain.mBlocks.length =
        currencyBlockGrantedFullRewardZoneEnlarge ∧
      handleBlockToMainChain FarLine.env 10000000 (FarLine.block 147000 65536)
        (getBlockHash FarLine.env (FarLine.block 147000 65536)) n = .ok .added n' ∧
      ¬ AddedFits FarLine.env n n' := by
  obtain ⟨n, n', hn, hlen, hadd⟩ := FarLine.exists_added (show 4 * 65536 + 166 ≤ 1000000 by omega)
  refine ⟨n, n', hn, by rw [hlen]; decide, hadd, fun hfit => ?_⟩
  obtain ⟨c⟩ := handleBlockToMainChain_added hadd
  have hsound := (hn.sound (guaranteed_true FarLine.env)).1
  rw [c.addedFits_iff hsound, c.positionsFit_iff hsound, c.fitsRebuild_iff] at hfit
  have hcount : (FarLine.block 147000 65536).minerTx.vout.length = 65536 + 3 :=
    FarLine.length_vout 147000 65536
  omega

end DarknetSpace
