import Mathlib.Order.RelClasses
import Mathlib.Algebra.Order.Field.Rat
import DarknetSpace.Core.TemplateTxs
import DarknetSpace.Format.IntUtil
import DarknetSpace.Lib.Greedy

/-!
# The best prefix (`fill_block_template`)

The entries of the pool go by what they pay per byte. Of those that are ready,
one is left out where it shares a key image with one before it, and of the rest
the loop remembers the prefix that earns most, until the block gets too large.

Fees are summed in `uint64_t`, and reward and fees are added in `uint64_t`,
without a check; a block full of forged fees below a checkpoint can wrap them.
The prefix is the best one exactly when nothing wraps.

The loop is followed by two predicates: `Running` says what it has counted of the
transactions it has taken, `Remembers` which prefix it has kept. Main result:
`best_prefix_iff`, for every pool whose entries have their real sizes, every height and
reward, and every order of entries with equal rates.
-/

namespace DarknetSpace

open Words

/-! ## The order of the entries -/

/-- Two words compare as the number they make. -/
theorem two_lt_two {lo hi lo' hi' : UInt64} :
    two lo hi < two lo' hi' ↔ hi < hi' ∨ hi = hi' ∧ lo < lo' := by
  have hlo := lo.toNat_lt
  have hlo' := lo'.toNat_lt
  unfold two
  rw [UInt64.lt_iff_toNat_lt, UInt64.lt_iff_toNat_lt, ← UInt64.toNat_inj]
  omega

namespace TxDetails

/-- The order `std::sort` goes by: `a` pays more for a byte than `b`. -/
def paysMore (a b : TxDetails) : Bool :=
  let left := mul128 a.fee (UInt64.ofNat b.blobSize)
  let right := mul128 b.fee (UInt64.ofNat a.blobSize)
  decide (left.2 > right.2) || (decide (left.2 = right.2) && decide (left.1 > right.1))

/-- The fee for a byte. -/
def feeRate (txd : TxDetails) : Rat := (txd.fee.toNat : Rat) / (txd.blobSize : Rat)

/-- A size that is positive and a `size_t`. -/
def Sized (txd : TxDetails) : Prop := 0 < txd.blobSize ∧ txd.blobSize < 2 ^ 64

instance decidableSized : DecidablePred Sized := fun txd =>
  inferInstanceAs (Decidable (0 < txd.blobSize ∧ txd.blobSize < 2 ^ 64))

/-- Two words are enough for the comparison to be exact. -/
theorem paysMore_iff {a b : TxDetails} (ha : a.Sized) (hb : b.Sized) :
    paysMore a b = true ↔ b.feeRate < a.feeRate := by
  have hleft : two (mul128 a.fee (UInt64.ofNat b.blobSize)).1
      (mul128 a.fee (UInt64.ofNat b.blobSize)).2 = a.fee.toNat * b.blobSize := by
    unfold mul128
    rw [mulWide_eq, UInt64.toNat_ofNat_of_lt' hb.2]
  have hright : two (mul128 b.fee (UInt64.ofNat a.blobSize)).1
      (mul128 b.fee (UInt64.ofNat a.blobSize)).2 = b.fee.toNat * a.blobSize := by
    unfold mul128
    rw [mulWide_eq, UInt64.toNat_ofNat_of_lt' ha.2]
  have hcross : paysMore a b = true ↔ b.fee.toNat * a.blobSize < a.fee.toNat * b.blobSize := by
    unfold paysMore
    simp only [Bool.or_eq_true, Bool.and_eq_true, decide_eq_true_eq, gt_iff_lt]
    rw [← hleft, ← hright, two_lt_two, @eq_comm _ (mul128 b.fee _).2]
  have hpos : (0 : Rat) < a.blobSize := Nat.cast_pos.2 ha.1
  have hpos' : (0 : Rat) < b.blobSize := Nat.cast_pos.2 hb.1
  rw [hcross, feeRate, feeRate, div_lt_div_iff₀ hpos' hpos, ← Nat.cast_mul, ← Nat.cast_mul,
    Nat.cast_lt]

/-- `std::sort` is given a strict weak order. -/
theorem paysMore_strictWeakOrder :
    IsStrictWeakOrder { txd : TxDetails // txd.Sized } fun a b => paysMore a.1 b.1 = true := by
  have hrel : (fun a b : { txd : TxDetails // txd.Sized } => paysMore a.1 b.1 = true) =
      fun a b => b.1.feeRate < a.1.feeRate := by
    funext a b
    exact propext (paysMore_iff a.2 b.2)
  rw [hrel]
  refine { irrefl := ?_, trans := ?_, incomp_trans := ?_ }
  · intro a
    exact lt_irrefl _
  · intro a b c hab hbc
    exact hbc.trans hab
  · intro a b c hab hbc
    rw [not_lt, not_lt] at hab hbc ⊢
    exact ⟨hab.1.trans hbc.1, hbc.2.trans hab.2⟩

end TxDetails

/-! ## The reward of a prefix -/

/-- No block is paid more than one that holds only its coinbase. -/
theorem getBlockReward_le_reserved (medianSize : Nat) (generated : UInt64) (height : Nat) :
    ∃ most, getBlockReward medianSize currencyCoinbaseBlobReservedSize generated height = some most ∧
      ∀ size r, getBlockReward medianSize size generated height = some r → r.toNat ≤ most.toNat := by
  have hzone : currencyCoinbaseBlobReservedSize ≤
      max medianSize (getBlockGrantedFullRewardZone height) := by
    refine le_trans ?_ (le_max_right _ _)
    unfold getBlockGrantedFullRewardZone
    split
    · decide
    · decide
  unfold getBlockReward
  simp only
  refine ⟨_, if_pos hzone, ?_⟩
  intro size r hr
  split at hr
  · exact (congrArg UInt64.toNat (Option.some.inj hr)).ge
  · split at hr
    · cases hr
    · split at hr
      · cases hr
      · split at hr
        · next hless =>
          rw [← Option.some.inj hr, UInt64.toNat_ofNat_of_lt' hless.1]
          exact hless.2.le
        · cases hr

namespace TxMemoryPool

/-- The sizes of entries, and their fees, without a bound. -/
def blobSizes (q : List (Hash × TxDetails)) : Nat := (q.map (·.2.blobSize)).sum

/-- The fees of some transactions, exactly. -/
def feesOf (q : List (Hash × TxDetails)) : Nat := (q.map (·.2.fee.toNat)).sum

/-- What `get_block_reward` says to a block with these entries. -/
def rewardOf (medianSize : Nat) (generated : UInt64) (height : Nat) (q : List (Hash × TxDetails)) :
    Option UInt64 :=
  getBlockReward medianSize (blobSizes q + currencyCoinbaseBlobReservedSize) generated height

/-- Reward and fees, as long as there is a reward. -/
def moneyOf (medianSize : Nat) (generated : UInt64) (height : Nat) (q : List (Hash × TxDetails)) :
    Nat :=
  (rewardOf medianSize generated height q).elim 0 UInt64.toNat + feesOf q

/-- The same in `uint64_t`. -/
def moneyScore (medianSize : Nat) (generated : UInt64) (height : Nat)
    (q : List (Hash × TxDetails)) : Option Nat :=
  (rewardOf medianSize generated height q).map fun r => (r.toNat + feesOf q) % 2 ^ 64

/-- The verdict of `is_transaction_ready_to_go`. -/
def isReady (env : Env) (now : Nat) (chain : Storage) (txd : TxDetails) : Bool :=
  match isTransactionReadyToGo env now chain txd with
  | .ok (ready, _) => ready
  | .error _ => false

/-- The ready entries, without those that share a key image with one before
them. -/
def considered (env : Env) (now : Nat) (chain : Storage) (txs : List (Hash × TxDetails)) :
    List (Hash × TxDetails) :=
  Greedy.keep (fun e => isReady env now chain e.2) (fun e => keyImages e.2.tx.vin) [] txs

theorem blobSizes_concat (q : List (Hash × TxDetails)) (e : Hash × TxDetails) :
    blobSizes (q ++ [e]) = blobSizes q + e.2.blobSize := by
  unfold blobSizes
  rw [List.map_append, List.sum_append, List.map_singleton, List.sum_singleton]

theorem feesOf_concat (q : List (Hash × TxDetails)) (e : Hash × TxDetails) :
    feesOf (q ++ [e]) = feesOf q + e.2.fee.toNat := by
  unfold feesOf
  rw [List.map_append, List.sum_append, List.map_singleton, List.sum_singleton]

/-! ## The loop -/

/-- A transaction is refused just when one of its images is among those taken. -/
theorem haveKeyImages_iff {kImages : Std.ExtTreeSet KeyImage compare} {vin : List Txin}
    (hvin : ∀ i ∈ vin, ∃ amount offs kImage, i = .toKey amount offs kImage) :
    haveKeyImages kImages vin = true ↔ ∃ k ∈ keyImages vin, k ∈ kImages := by
  constructor
  · intro h
    by_contra hnone
    push Not at hnone
    induction vin with
    | nil => cases h
    | cons i rest ih =>
      obtain ⟨amount, offs, ki, rfl⟩ := hvin i List.mem_cons_self
      rw [keyImages_toKey_cons, List.forall_mem_cons, Std.ExtTreeSet.mem_iff_contains] at hnone
      rw [haveKeyImages, if_neg hnone.1] at h
      exact ih (fun j hj => hvin j (List.mem_cons_of_mem _ hj)) h hnone.2
  · rintro ⟨k, hk, hmem⟩
    cases hhave : haveKeyImages kImages vin with
    | true => rfl
    | false => exact absurd hmem (haveKeyImages_false hvin hhave k hk)

/-- The loop has considered `pre`. -/
structure FillState.Running (pre : List (Hash × TxDetails)) (st : FillState) : Prop where
  ready : st.ready = pre.map (·.1)
  currentSize : st.currentSize = blobSizes pre
  currentFee : st.currentFee.toNat = feesOf pre % 2 ^ 64
  kImages : ∀ k, k ∈ st.kImages ↔ k ∈ pre.flatMap fun e => keyImages e.2.tx.vin

/-- The loop remembers a prefix with what it earns. -/
structure FillState.Remembers (top : List (Hash × TxDetails) × Nat) (st : FillState) : Prop where
  best : st.best = top.1.map (·.1)
  totalSize : st.totalSize = blobSizes top.1
  fee : st.fee.toNat = feesOf top.1 % 2 ^ 64
  bestMoney : st.bestMoney.toNat = top.2

section

variable {env : Env} {now : Nat} {chain : Storage} {medianSize height : Nat} {generated : UInt64}
  {pre : List (Hash × TxDetails)} {top : List (Hash × TxDetails) × Nat} {st : FillState} {id : Hash}
  {txd txd' : TxDetails}

/-- What `take` puts into the state. -/
theorem FillState.Running.concat (hst : st.Running pre) (id : Hash)
    (hsame : txd'.tx = txd.tx ∧ txd'.blobSize = txd.blobSize ∧ txd'.fee = txd.fee)
    (hd : DistinctImages txd.tx.toTransactionPrefix)
    (hnew : ∀ k ∈ keyImages txd.tx.vin, k ∉ pre.flatMap fun e => keyImages e.2.tx.vin) :
    FillState.Running (pre ++ [(id, txd)]) { st with
      kImages := appendKeyImages st.kImages txd'.tx.vin
      ready := st.ready ++ [id]
      currentSize := st.currentSize + txd'.blobSize
      currentFee := st.currentFee + txd'.fee } := by
  obtain ⟨htx, hsize, hfee⟩ := hsame
  refine ⟨?_, ?_, ?_, ?_⟩
  · show st.ready ++ [id] = _
    rw [hst.ready, List.map_append]
    rfl
  · show st.currentSize + txd'.blobSize = _
    rw [hst.currentSize, hsize, blobSizes_concat]
  · show (st.currentFee + txd'.fee).toNat = _
    rw [UInt64.toNat_add, hst.currentFee, hfee, feesOf_concat, Nat.mod_add_mod]
  · intro k
    have hfresh : ∀ k ∈ keyImages txd.tx.vin, k ∉ st.kImages := by
      intro k hk hmem
      exact hnew k hk ((hst.kImages k).1 hmem)
    show k ∈ appendKeyImages st.kImages txd'.tx.vin ↔ _
    rw [htx, mem_appendKeyImages hd.vin hfresh hd.nodup, hst.kImages, List.flatMap_append,
      List.mem_append, List.flatMap_singleton]

/-- The entry does not fit, or it is considered and the better prefix is
remembered. -/
theorem FillState.Running.take (hst : st.Running pre) (medianSize : Nat)
    (generated : UInt64) (height : Nat) (id : Hash) (htop : st.Remembers top)
    (hsame : txd'.tx = txd.tx ∧ txd'.blobSize = txd.blobSize ∧ txd'.fee = txd.fee)
    (hd : DistinctImages txd.tx.toTransactionPrefix)
    (hnew : ∀ k ∈ keyImages txd.tx.vin, k ∉ pre.flatMap fun e => keyImages e.2.tx.vin) :
    (st.take medianSize generated height id txd' = none ∧
      moneyScore medianSize generated height (pre ++ [(id, txd)]) = none) ∨
    ∃ st' s, st.take medianSize generated height id txd' = some st' ∧
      moneyScore medianSize generated height (pre ++ [(id, txd)]) = some s ∧
      st'.Running (pre ++ [(id, txd)]) ∧
      st'.Remembers (if top.2 < s then (pre ++ [(id, txd)], s) else top) := by
  have hrun := hst.concat id hsame hd hnew
  have hsize : st.currentSize + txd'.blobSize = blobSizes (pre ++ [(id, txd)]) := hrun.currentSize
  have hfee : (st.currentFee + txd'.fee).toNat = feesOf (pre ++ [(id, txd)]) % 2 ^ 64 :=
    hrun.currentFee
  unfold FillState.take moneyScore rewardOf
  simp only
  rw [← hsize]
  cases hreward : getBlockReward medianSize
      (st.currentSize + txd'.blobSize + currencyCoinbaseBlobReservedSize) generated height with
  | none => exact .inl ⟨rfl, rfl⟩
  | some r =>
    have hmoney : (r + (st.currentFee + txd'.fee)).toNat =
        (r.toNat + feesOf (pre ++ [(id, txd)])) % 2 ^ 64 := by
      rw [UInt64.toNat_add, hfee, Nat.add_mod_mod]
    have hbetter : st.bestMoney < r + (st.currentFee + txd'.fee) ↔
        top.2 < (r.toNat + feesOf (pre ++ [(id, txd)])) % 2 ^ 64 := by
      rw [UInt64.lt_iff_toNat_lt, htop.bestMoney, hmoney]
    refine .inr ?_
    by_cases hmore : top.2 < (r.toNat + feesOf (pre ++ [(id, txd)])) % 2 ^ 64
    · refine ⟨_, _, if_pos (hbetter.2 hmore), rfl, ?_, ?_⟩
      · exact ⟨hrun.ready, hrun.currentSize, hrun.currentFee, hrun.kImages⟩
      · rw [if_pos hmore]
        exact ⟨hrun.ready, hrun.currentSize, hrun.currentFee, hmoney⟩
    · refine ⟨_, _, if_neg fun hlt => hmore (hbetter.1 hlt), rfl, hrun, ?_⟩
      rw [if_neg hmore]
      exact ⟨htop.best, htop.totalSize, htop.fee, htop.bestMoney⟩

/-- The loop remembers the best prefix of what it considers. -/
theorem fillLoop_remembers {txs : List (Hash × TxDetails)} {st' : FillState}
    (hd : ∀ e ∈ txs, DistinctImages e.2.tx.toTransactionPrefix) (hst : st.Running pre)
    (htop : st.Remembers top)
    (h : fillLoop env now chain medianSize generated height txs st = .ok st') :
    st'.Remembers (Greedy.best (moneyScore medianSize generated height) pre top
      (Greedy.keep (fun e => isReady env now chain e.2) (fun e => keyImages e.2.tx.vin)
        (pre.flatMap fun e => keyImages e.2.tx.vin) txs)) := by
  induction txs generalizing st pre top with
  | nil =>
    cases h
    exact htop
  | cons e rest ih =>
    obtain ⟨id, txd⟩ := e
    rw [List.forall_mem_cons] at hd
    unfold fillLoop at h
    split at h
    · cases h
    · next ready txd' hready =>
      have hsame := isTransactionReadyToGo_same hready
      have hisReady : isReady env now chain txd = ready := by
        unfold isReady
        rw [hready]
      have hhave : haveKeyImages st.kImages txd'.tx.vin = true ↔
          ∃ k ∈ keyImages txd.tx.vin, k ∈ pre.flatMap fun e => keyImages e.2.tx.vin := by
        rw [hsame.1, haveKeyImages_iff hd.1.vin]
        simp only [hst.kImages]
      unfold Greedy.keep
      simp only at h ⊢
      by_cases hgo : ready = true ∧
          ∀ k ∈ keyImages txd.tx.vin, k ∉ pre.flatMap fun e => keyImages e.2.tx.vin
      · rw [if_pos (by rw [hisReady]; exact hgo)]
        have hskip : ¬ (¬ ready = true ∨ haveKeyImages st.kImages txd'.tx.vin = true) := by
          rintro (hnot | hcollides)
          · exact hnot hgo.1
          · obtain ⟨k, hk, hmem⟩ := hhave.1 hcollides
            exact hgo.2 k hk hmem
        rw [if_neg hskip] at h
        unfold Greedy.best
        -- the notes on the check do not matter to what is picked
        have hst' : ({ st with pool := { st.pool with
            mTransactions := st.pool.mTransactions.insert id txd' } } : FillState).Running pre :=
          ⟨hst.ready, hst.currentSize, hst.currentFee, hst.kImages⟩
        have htop' : ({ st with pool := { st.pool with
            mTransactions := st.pool.mTransactions.insert id txd' } } : FillState).Remembers top :=
          ⟨htop.best, htop.totalSize, htop.fee, htop.bestMoney⟩
        rcases hst'.take medianSize generated height id htop' hsame hd.1 hgo.2 with
          ⟨htake, hscore⟩ | ⟨st₂, s, htake, hscore, hrun, hbest⟩
        · rw [htake] at h
          rw [hscore]
          cases h
          exact htop'
        · rw [htake] at h
          rw [hscore]
          have hnext := ih hd.2 hrun hbest h
          rw [List.flatMap_append, List.flatMap_singleton] at hnext
          exact hnext
      · rw [if_neg (by rw [hisReady]; exact hgo)]
        have hskip : ¬ ready = true ∨ haveKeyImages st.kImages txd'.tx.vin = true := by
          by_cases hr : ready = true
          · refine .inr (hhave.2 ?_)
            by_contra hnone
            push Not at hnone
            exact hgo ⟨hr, hnone⟩
          · exact .inl hr
        rw [if_pos hskip] at h
        refine ih hd.2 ?_ ?_ h
        · exact ⟨hst.ready, hst.currentSize, hst.currentFee, hst.kImages⟩
        · exact ⟨htop.best, htop.totalSize, htop.fee, htop.bestMoney⟩

theorem running_start (p : TxMemoryPool) (bestMoney : UInt64) :
    (FillState.start p bestMoney).Running [] where
  ready := rfl
  currentSize := rfl
  currentFee := rfl
  kImages _ := ⟨fun h => (nomatch (Std.ExtTreeSet.mem_iff_contains.1 h)), fun h => (nomatch h)⟩

theorem remembers_start (p : TxMemoryPool) (bestMoney : UInt64) :
    (FillState.start p bestMoney).Remembers ([], bestMoney.toNat) where
  best := rfl
  totalSize := rfl
  fee := rfl
  bestMoney := rfl

end

/-- What the entries of a pool have: a size, and key images that all differ. -/
structure Fillable (p : TxMemoryPool) : Prop where
  sized : ∀ (id : Hash) txd, p.mTransactions[id]? = some txd → txd.Sized
  images : ∀ (id : Hash) txd, p.mTransactions[id]? = some txd →
    DistinctImages txd.tx.toTransactionPrefix

theorem fillable_of_sized {env : Env} {n : Node} (hn : Reachable env n)
    (hsized : ∀ (id : Hash) txd, n.pool.mTransactions[id]? = some txd → txd.Sized) :
    n.pool.Fillable where
  sized := hsized
  images _ _ h := (hn.pool_intake h).2.images

/-- The prefixes of the considered entries up to the first one that is refused. -/
def Admits (env : Env) (now : Nat) (chain : Storage) (txs : List (Hash × TxDetails))
    (medianSize : Nat) (generated : UInt64) (height : Nat) : List (Hash × TxDetails) → Prop :=
  Greedy.Admitted (rewardOf medianSize generated height) (considered env now chain txs)

section

variable {env : Env} {now : Nat} {chain : Storage} {medianSize height : Nat} {generated : UInt64}
  {p : TxMemoryPool} {txs : List (Hash × TxDetails)}

/-- What is returned is a prefix of what was considered, with its size and its
fees as far as they fit, and the one that earns most as far as that fits. -/
theorem fillBlockTemplate_top
    (hd : ∀ e ∈ txs, DistinctImages e.2.tx.toTransactionPrefix) {r : Option Filled}
    (h : p.fillBlockTemplate env now chain txs medianSize generated height = .ok r) :
    ∃ f top, r = some f ∧ f.txHashes = top.1.map (·.1) ∧ f.totalSize = blobSizes top.1 ∧
      f.fee.toNat = feesOf top.1 % 2 ^ 64 ∧
      Greedy.Top (moneyScore medianSize generated height)
        (Admits env now chain txs medianSize generated height) top := by
  obtain ⟨most, hmost, -⟩ := getBlockReward_le_reserved medianSize generated height
  unfold fillBlockTemplate at h
  rw [hmost] at h
  simp only at h
  split at h
  · cases h
  · next st hloop =>
    have hrem := fillLoop_remembers hd (running_start p most) (remembers_start p most) hloop
    refine ⟨_, _, (Except.ok.inj h).symm, hrem.best, hrem.totalSize, hrem.fee, ?_⟩
    have hscore : moneyScore medianSize generated height [] = some most.toNat := by
      have hreward : rewardOf medianSize generated height [] = some most := by
        rw [← hmost]
        exact congrArg (fun size => getBlockReward medianSize size generated height) (Nat.zero_add _)
      unfold moneyScore
      rw [hreward, Option.map_some]
      exact congrArg some (Nat.mod_eq_of_lt most.toNat_lt)
    have hstart : Greedy.Top (moneyScore medianSize generated height) (· <+: []) ([], most.toNat) := by
      refine ⟨List.prefix_rfl, hscore, ?_⟩
      intro q s hq hs
      rw [List.prefix_nil.1 hq, hscore] at hs
      exact (Option.some.inj hs).ge
    have htop := Greedy.best_top (l := considered env now chain txs) hstart (by
      intro q hq
      rw [List.prefix_nil.1 hq, hscore]
      rfl)
    refine htop.congr fun q => ?_
    exact (Greedy.admitted_map fun q => Option.isSome_map).symm

end

end TxMemoryPool

open TxMemoryPool

/-- **The best prefix of the ready transactions is picked** exactly when reward
and fees stay below `2 ^ 64` for every prefix that is looked at. The order is a
strict weak one, the transactions are a prefix of those considered and share no
key images, their size is the one reported, and a block of that size has a
reward, in any case. -/
theorem best_prefix_iff {env : Env} {now : Nat} {chain : Storage} {p : TxMemoryPool}
    {txs : List (Hash × TxDetails)} {medianSize height : Nat} {generated : UInt64}
    {r : Option Filled} (hp : p.Fillable) (hperm : txs.Perm p.mTransactions.toList)
    (hsorted : txs.Pairwise fun a b => b.2.paysMore a.2 = false)
    (h : p.fillBlockTemplate env now chain txs medianSize generated height = .ok r) :
    (IsStrictWeakOrder { txd : TxDetails // txd.Sized } fun a b => a.1.paysMore b.1 = true) ∧
    (considered env now chain txs).Pairwise (fun a b => b.2.feeRate ≤ a.2.feeRate) ∧
    ∃ f picked, r = some f ∧ picked <+: considered env now chain txs ∧
      f.txHashes = picked.map (·.1) ∧ (imagesOf (picked.map (·.2))).Nodup ∧
      f.totalSize = blobSizes picked ∧
      (getBlockReward medianSize (f.totalSize + currencyCoinbaseBlobReservedSize) generated
        height).isSome = true ∧
      ((f.fee.toNat = feesOf picked ∧
          ∀ q, Admits env now chain txs medianSize generated height q →
            moneyOf medianSize generated height q ≤ moneyOf medianSize generated height picked) ↔
        ∀ q, Admits env now chain txs medianSize generated height q →
          moneyOf medianSize generated height q < 2 ^ 64) := by
  have hentry : ∀ e ∈ txs, p.mTransactions[e.1]? = some e.2 := by
    intro e he
    exact Std.ExtTreeMap.mem_toList_iff_getElem?_eq_some.1 (hperm.subset he)
  have hd : ∀ e ∈ txs, DistinctImages e.2.tx.toTransactionPrefix := by
    intro e he
    exact hp.images e.1 e.2 (hentry e he)
  have hsub : (considered env now chain txs).Sublist txs := Greedy.keep_sublist _ _
  refine ⟨TxDetails.paysMore_strictWeakOrder, ?_, ?_⟩
  · refine (hsorted.imp_of_mem ?_).sublist hsub
    intro a b ha hb hab
    refine not_lt.1 fun hlt => ?_
    rw [(TxDetails.paysMore_iff (hp.sized b.1 b.2 (hentry b hb))
      (hp.sized a.1 a.2 (hentry a ha))).2 hlt] at hab
    cases hab
  · obtain ⟨f, top, rfl, hhashes, hsize, hfee, htop⟩ := fillBlockTemplate_top hd h
    obtain ⟨picked, money⟩ := top
    have hnodup : ((considered env now chain txs).flatMap fun e => keyImages e.2.tx.vin).Nodup := by
      have hkept : ([] ++ (considered env now chain txs).flatMap
          fun e : Hash × TxDetails => keyImages e.2.tx.vin).Nodup :=
        Greedy.keep_nodup (fun e he => (hd e he).nodup) List.nodup_nil
      rw [List.nil_append] at hkept
      exact hkept
    have himages : imagesOf (picked.map (·.2)) = picked.flatMap fun e => keyImages e.2.tx.vin :=
      List.flatMap_map _ _ _
    have hreward := htop.mem.2 picked List.prefix_rfl
    refine ⟨f, picked, rfl, htop.mem.1, hhashes, ?_, hsize, ?_, ?_⟩
    · rw [himages]
      obtain ⟨rest, hrest⟩ := htop.mem.1
      rw [← hrest, List.flatMap_append, List.nodup_append] at hnodup
      exact hnodup.1
    · rw [hsize]
      exact hreward
    · obtain ⟨most, hmost, hle⟩ := getBlockReward_le_reserved medianSize generated height
      have hnone : rewardOf medianSize generated height [] = some most := by
        rw [← hmost]
        exact congrArg (fun size => getBlockReward medianSize size generated height) (Nat.zero_add _)
      -- the fee reported is the sum as far as it fits
      have hfits : f.fee.toNat = feesOf picked ↔ feesOf picked < 2 ^ 64 := by
        rw [hfee]
        exact ⟨fun heq => heq ▸ Nat.mod_lt _ (by decide), Nat.mod_eq_of_lt⟩
      have hscore : ∀ q, Admits env now chain txs medianSize generated height q →
          moneyScore medianSize generated height q =
            some (moneyOf medianSize generated height q % 2 ^ 64) := by
        intro q hq
        obtain ⟨r, hr⟩ := Option.isSome_iff_exists.1 (hq.2 q List.prefix_rfl)
        unfold moneyScore moneyOf
        rw [hr]
        rfl
      rw [hfits]
      unfold moneyOf
      have hempty : Admits env now chain txs medianSize generated height [] := by
        refine ⟨List.nil_prefix, ?_⟩
        intro q hq
        rw [List.prefix_nil.1 hq, hnone]
        rfl
      refine Greedy.wrapped_top_iff htop.mem hempty rfl ?_ ?_ ?_
      · rw [hnone]
        exact most.toNat_lt
      · intro q hq
        obtain ⟨r, hr⟩ := Option.isSome_iff_exists.1 (hq.2 q List.prefix_rfl)
        rw [hr, hnone]
        exact hle _ r hr
      · intro q hq
        have hpicked := htop.score_eq.symm.trans (hscore picked htop.mem)
        exact Option.some.inj hpicked ▸ htop.ge q _ hq (hscore q hq)

namespace Devnet

/-- What `create_block_template` asks for on top of a node's chain. -/
def admits (e : Env) (n : Node) : List (Hash × TxDetails) → Prop :=
  Admits e now n.chain n.pool.mTransactions.toList (n.chain.mCurrentBlockCumulSzLimit / 2)
    (alreadyGeneratedCoins n.chain.mBlocks) n.chain.mBlocks.length

/-- The reward and the fees for some transactions. -/
def money (n : Node) : List (Hash × TxDetails) → Nat :=
  moneyOf (n.chain.mCurrentBlockCumulSzLimit / 2) (alreadyGeneratedCoins n.chain.mBlocks)
    n.chain.mBlocks.length

/-- A block of that size still has a reward. -/
def hasReward (n : Node) (q : List (Hash × TxDetails)) : Bool :=
  (rewardOf (n.chain.mCurrentBlockCumulSzLimit / 2) (alreadyGeneratedCoins n.chain.mBlocks)
    n.chain.mBlocks.length q).isSome

theorem admits_of_hasReward {e : Env} {n : Node} {l : List (Hash × TxDetails)}
    (hl : considered e now n.chain n.pool.mTransactions.toList = l)
    (h : l.inits.all (hasReward n) = true) : admits e n l := by
  refine ⟨hl ▸ List.prefix_rfl, ?_⟩
  intro q hq
  exact List.all_eq_true.1 h q ((List.mem_inits q l).2 hq)

/-- A pool whose transactions are sized can be filled from. -/
theorem fillable_of_toList {e : Env} {n : Node} (hn : Reachable e n)
    {l : List (Hash × TxDetails)} (hl : n.pool.mTransactions.toList = l)
    (h : l.all (fun e => decide e.2.Sized) = true) :
    n.pool.Fillable := by
  refine fillable_of_sized hn ?_
  intro id txd hget
  have hmem : (id, txd) ∈ l := hl ▸ Std.ExtTreeMap.mem_toList_iff_getElem?_eq_some.2 hget
  exact of_decide_eq_true (List.all_eq_true.1 h _ hmem)

/-- Two transactions are sent, one for each of the first two coinbases. -/
def twoSent : List Event :=
  longLine ++ [.newBlock (mainBlock 60), .incomingTx [9, 0, 1, 0] false,
    .incomingTx [8, 1, 2, 0] false]

/-- Their ids and entries, in the order of the pool. -/
def sentPair (version offset kImage : UInt8) : Hash × TxDetails :=
  (spendId version, details env now (spend version offset kImage 0 []) fee false
    (some (offset.toNat, BitVec.ofNat 256 (offset.toNat + 1))))

/-- Both transactions, as the pool has them. -/
def sentPairs : List (Hash × TxDetails) := [sentPair 8 1 2, sentPair 9 0 1]

end Devnet

/-- Two transactions are ready, and both are picked with all they pay. -/
theorem best_prefix_two :
    ∃ n f, Reachable Devnet.env n ∧ Devnet.fill n = .ok (some f) ∧
      f.txHashes = [Devnet.spendId 8, Devnet.spendId 9] ∧ f.fee = 2 * Devnet.fee ∧
      ∀ q, Devnet.admits Devnet.env n q → Devnet.money n q ≤ Devnet.money n Devnet.sentPairs := by
  have heval : (Devnet.run ∅ Devnet.twoSent).isSome = true ∧
      Devnet.picks (Devnet.node ∅ Devnet.twoSent) = some (Devnet.sentPairs.map (·.2)) ∧
      (Devnet.node ∅ Devnet.twoSent).pool.mTransactions.toList = Devnet.sentPairs ∧
      considered Devnet.env Devnet.now (Devnet.node ∅ Devnet.twoSent).chain Devnet.sentPairs =
        Devnet.sentPairs ∧
      (Devnet.sentPair 9 0 1).2.paysMore (Devnet.sentPair 8 1 2).2 = false ∧
      Devnet.sentPairs.all (fun e => decide e.2.Sized) = true ∧
      Devnet.sentPairs.inits.all (fun q =>
        decide (Devnet.money (Devnet.node ∅ Devnet.twoSent) q < 2 ^ 64)) = true := by
    decide +kernel
  obtain ⟨hrun, hpicks, hlist, hconsidered, horder, hsized, hfits⟩ := heval
  have hreach := Devnet.reachable_node ∅ Devnet.twoSent hrun
  generalize Devnet.node ∅ Devnet.twoSent = n at hpicks hlist hconsidered hfits hreach
  obtain ⟨f, hfill, hchosen⟩ := Devnet.exists_fill hpicks
  have hsorted : n.pool.mTransactions.toList.Pairwise fun a b => b.2.paysMore a.2 = false := by
    rw [hlist]
    exact List.pairwise_pair.2 horder
  obtain ⟨-, -, f', picked, hf, hprefix, hhashes, -, -, -, hiff⟩ :=
    best_prefix_iff (Devnet.fillable_of_toList hreach hlist hsized) (List.Perm.refl _) hsorted hfill
  cases hf
  rw [hlist, hconsidered] at hprefix
  have hpicked : picked = Devnet.sentPairs := by
    -- two entries were chosen, so two ids were picked
    have hlength := congrArg List.length hchosen
    have hle : (n.pool.chosen f.txHashes).length ≤ f.txHashes.length := List.length_filterMap_le ..
    rw [hlength, hhashes, List.length_map, List.length_map] at hle
    exact hprefix.eq_of_length_le hle
  subst hpicked
  obtain ⟨hfee, hbest⟩ := hiff.2 (by
    intro q hq
    have hmem := hq.1
    rw [hlist, hconsidered] at hmem
    exact of_decide_eq_true (List.all_eq_true.1 hfits q ((List.mem_inits q _).2 hmem)))
  exact ⟨n, f, hreach, hfill, hhashes, UInt64.toNat_inj.1 (hfee.trans (by decide)), hbest⟩

namespace Devnet

/-- The second output of the genesis coinbase, and what it grows to when it is
spent with many key images at once. -/
def hoard : Nat → UInt64
  | 0 => reward 0 - unit
  | k + 1 => 17 * hoard k - coin

/-- A transaction that spends the first output of an amount many times; a
signature it has none. -/
def forge (version : UInt8) (amount : UInt64) (inputs : Nat) (out : UInt64) : Transaction where
  version := version.toUInt64
  unlockTime := 0
  vin := (List.range inputs).map fun k =>
    .toKey amount [0] (BitVec.ofNat 256 (100 * version.toNat + k))
  vout := [⟨out, .toKey 7 0⟩]
  extra := []
  signatures := []

/-- An environment in which key images can be forged. -/
def forgingEnv : Env :=
  { env with
    parseTx
      | [version] =>
        some (if version ≤ 4 then
            forge version (hoard (version.toNat - 1)) 17 (hoard version.toNat)
          else forge version (hoard 4) 1 coin)
      | _ => none }

/-- A checkpoint far above the chain. -/
def checkpointAbove : Checkpoints := (∅ : Checkpoints).insert 1000 0

/-- Four such transactions, each in a block of its own; then two that pay all but
a coin of the last output as their fee. -/
def forged : List Event :=
  longLine ++
    ((List.range 4).flatMap fun k =>
      [.incomingTx [UInt8.ofNat (k + 1)] false,
        .newBlock (block (60 + k) (UInt64.ofNat (60 + k)) (UInt64.ofNat (59 + k))
          (coinbase (60 + k) 1 coin []) [spendId (UInt8.ofNat (k + 1))])]) ++
    [.incomingTx [5] false, .incomingTx [6] false]

/-- The run with the forged transactions. -/
def forgedRun : Option Node := runFromGenesis forgingEnv now 3 checkpointAbove genesis forged

/-- The node behind it. -/
def forgedNode : Node := forgedRun.getD (Node.initial checkpointAbove)

/-- A forged transaction, as the pool has it. -/
def forgedPair (version : UInt8) : Hash × TxDetails :=
  (spendId version,
    details forgingEnv now (forge version (hoard 4) 1 coin) (hoard 4 - coin) false
      (some (63, getBlockHash forgingEnv (block 63 63 62 (coinbase 63 1 coin []) [spendId 4]))))

/-- `fill_block_template`, as `create_block_template` calls it. -/
def fillForged (n : Node) : Except Exn (Option Filled) :=
  n.pool.fillBlockTemplate forgingEnv now n.chain n.pool.mTransactions.toList
    (n.chain.mCurrentBlockCumulSzLimit / 2) (alreadyGeneratedCoins n.chain.mBlocks)
    n.chain.mBlocks.length

/-- What the template takes. -/
def forgedHashes (n : Node) : Option (List Hash) :=
  match fillForged n with
  | .ok (some f) => some f.txHashes
  | _ => none

theorem exists_of_forgedHashes {n : Node} {ids : List Hash} (h : forgedHashes n = some ids) :
    ∃ f, fillForged n = .ok (some f) ∧ f.txHashes = ids := by
  unfold forgedHashes at h
  split at h
  · next f hf => exact ⟨f, hf, Option.some.inj h⟩
  · cases h

end Devnet

/-- Below a checkpoint the two fees together wrap, and the second transaction is
left out although both would earn more. -/
theorem wrapped_fees_left_out :
    ∃ n f, Reachable Devnet.forgingEnv n ∧ n.pool.Fillable ∧
      n.pool.mTransactions.toList.Pairwise (fun a b => b.2.paysMore a.2 = false) ∧
      Devnet.fillForged n = .ok (some f) ∧
      f.txHashes = [(Devnet.forgedPair 5).1] ∧
      Devnet.admits Devnet.forgingEnv n [Devnet.forgedPair 5, Devnet.forgedPair 6] ∧
      Devnet.money n [Devnet.forgedPair 5] <
        Devnet.money n [Devnet.forgedPair 5, Devnet.forgedPair 6] := by
  have heval : Devnet.forgedRun.isSome = true ∧
      Devnet.forgedHashes Devnet.forgedNode = some [(Devnet.forgedPair 5).1] ∧
      Devnet.forgedNode.pool.mTransactions.toList = [Devnet.forgedPair 5, Devnet.forgedPair 6] ∧
      considered Devnet.forgingEnv Devnet.now Devnet.forgedNode.chain
        [Devnet.forgedPair 5, Devnet.forgedPair 6] = [Devnet.forgedPair 5, Devnet.forgedPair 6] ∧
      (Devnet.forgedPair 6).2.paysMore (Devnet.forgedPair 5).2 = false ∧
      [Devnet.forgedPair 5, Devnet.forgedPair 6].all
        (fun e => decide e.2.Sized) = true ∧
      [Devnet.forgedPair 5, Devnet.forgedPair 6].inits.all (Devnet.hasReward Devnet.forgedNode) = true ∧
      Devnet.money Devnet.forgedNode [Devnet.forgedPair 5] <
        Devnet.money Devnet.forgedNode [Devnet.forgedPair 5, Devnet.forgedPair 6] := by
    decide +kernel
  obtain ⟨hrun, hhashes, hlist, hconsidered, horder, hsized, hreward, hless⟩ := heval
  have hreach : Reachable Devnet.forgingEnv Devnet.forgedNode := by
    obtain ⟨n, hn⟩ := Option.isSome_iff_exists.1 hrun
    rw [Devnet.forgedNode, hn]
    exact reachable_of_runFromGenesis hn
  generalize Devnet.forgedNode = n at hhashes hlist hconsidered hreward hless hreach
  obtain ⟨f, hf, htxs⟩ := Devnet.exists_of_forgedHashes hhashes
  rw [← hlist] at hconsidered
  refine ⟨n, f, hreach, Devnet.fillable_of_toList hreach hlist hsized, ?_, hf, htxs,
    Devnet.admits_of_hasReward (hconsidered.trans hlist) hreward, hless⟩
  rw [hlist]
  exact List.pairwise_pair.2 horder

end DarknetSpace
