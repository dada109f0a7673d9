import Mathlib.Data.List.MinMax
import Mathlib.Order.Nat
import DarknetSpace.Chain.Batch
import DarknetSpace.Core.CacheLoad
import DarknetSpace.Core.Tower
import DarknetSpace.Sync.ShortHistory

/-!
# The highest block a transaction refers to (`check_tx_inputs`)

`scan_outputkeys_for_indexes` looks at the block of an output once for each
input, at the last of its offsets, and `max_used_block_height` is the highest of
these. The outputs of an amount are in chain order, so the last output of a ring
is in its highest block as long as the absolute offsets ascend. They are sums of
what the transaction gives, in `uint64_t`, and may wrap back to the start.

Two heights are compared: the one the check reports, from the last offset of each ring,
and the highest block of all outputs the transaction refers to. `maxKeeperHeight_eq_iff`
says when they are the same, over any chain whose output indexes are consistent, which
those of all runs are.

Main result: `max_used_height_iff`. The height is right exactly then, and what it is
there for follows: on every chain that has that block, the transaction refers to the
same outputs.
-/

namespace DarknetSpace

/-! ## What a transaction refers to -/

/-- The outputs an input names, by amount and absolute offset. -/
def referenced : Txin → List (UInt64 × UInt64)
  | .toKey amount keyOffsets _ => (relativeOutputOffsetsToAbsolute keyOffsets).map (amount, ·)
  | _ => []

namespace Storage

/-- The place of an output and the output itself. -/
def designated (s : Storage) (r : UInt64 × UInt64) :
    Option ((TransactionIndex × UInt16) × TxOut) :=
  (s.mOutputs.getD r.1 [])[r.2.toNat]?.bind fun q =>
    match s.transactionByIndex q.1 with
    | .ok txe => txe.tx.vout[q.2.toNat]?.map (q, ·)
    | .error _ => none

/-- The `m_keeper_block_height` of the transaction an output is from. -/
def keeperHeight (s : Storage) (r : UInt64 × UInt64) : Option Nat :=
  (s.mOutputs.getD r.1 [])[r.2.toNat]?.bind fun q =>
    match s.transactionByIndex q.1 with
    | .ok txe => some txe.mKeeperBlockHeight
    | .error _ => none

/-- The largest one over all outputs the transaction refers to. -/
def maxKeeperHeight (s : Storage) (tx : TransactionPrefix) : Nat :=
  ((tx.vin.flatMap referenced).filterMap s.keeperHeight).foldr max 0

/-- The one that is looked at. -/
def lastHeight (s : Storage) (i : Txin) : Option Nat :=
  (referenced i).getLast?.bind s.keeperHeight

/-- Where the offsets of an input wrap, no output it names is in a higher block
than the last outputs of the inputs. -/
def LastOnTop (s : Storage) (tx : TransactionPrefix) : Prop :=
  ∀ amount keyOffsets kImage, Txin.toKey amount keyOffsets kImage ∈ tx.vin →
    2 ^ 64 ≤ (keyOffsets.map UInt64.toNat).sum →
    ∀ r ∈ referenced (.toKey amount keyOffsets kImage), ∀ k, s.keeperHeight r = some k →
      ∃ i ∈ tx.vin, ∃ top, s.lastHeight i = some top ∧ k ≤ top

theorem keeperHeight_eq_some {s : Storage} {r : UInt64 × UInt64} {k : Nat} :
    s.keeperHeight r = some k ↔ ∃ q txe, (s.mOutputs.getD r.1 [])[r.2.toNat]? = some q ∧
      s.transactionByIndex q.1 = .ok txe ∧ txe.mKeeperBlockHeight = k := by
  unfold keeperHeight
  rw [Option.bind_eq_some_iff]
  constructor
  · rintro ⟨q, hq, h⟩
    split at h
    · next txe hread => exact ⟨q, txe, hq, hread, Option.some.inj h⟩
    · cases h
  · rintro ⟨q, txe, hq, hread, hk⟩
    refine ⟨q, hq, ?_⟩
    rw [hread]
    exact congrArg some hk

theorem designated_eq_some {s : Storage} {r : UInt64 × UInt64} {q : TransactionIndex × UInt16}
    {o : TxOut} : s.designated r = some (q, o) ↔ (s.mOutputs.getD r.1 [])[r.2.toNat]? = some q ∧
      ∃ txe, s.transactionByIndex q.1 = .ok txe ∧ txe.tx.vout[q.2.toNat]? = some o := by
  unfold designated
  rw [Option.bind_eq_some_iff]
  constructor
  · rintro ⟨q', hq', h⟩
    split at h
    · next txe hread =>
      obtain ⟨o', ho', heq⟩ := Option.map_eq_some_iff.1 h
      cases heq
      exact ⟨hq', txe, hread, ho'⟩
    · cases h
  · rintro ⟨hq, txe, hread, ho⟩
    refine ⟨q, hq, ?_⟩
    rw [hread]
    simp only
    rw [ho]
    rfl

end Storage

/-! ## Absolute offsets -/

/-- As long as the sum fits, the absolute offsets ascend. -/
theorem absolute_ascending {base : UInt64} {off : List UInt64}
    (h : base.toNat + (off.map UInt64.toNat).sum < 2 ^ 64) :
    (∀ i ∈ relativeOutputOffsetsToAbsolute.go base off, base.toNat ≤ i.toNat) ∧
      (relativeOutputOffsetsToAbsolute.go base off).Pairwise fun i j => i.toNat ≤ j.toNat := by
  induction off generalizing base with
  | nil =>
    refine ⟨?_, List.Pairwise.nil⟩
    intro i hi
    cases hi
  | cons o rest ih =>
    rw [List.map_cons, List.sum_cons] at h
    have hstep : (base + o).toNat = base.toNat + o.toNat := by
      rw [UInt64.toNat_add]
      exact Nat.mod_eq_of_lt (by omega)
    have hroom : (base + o).toNat + (rest.map UInt64.toNat).sum < 2 ^ 64 := by
      rw [hstep]
      omega
    obtain ⟨hge, hpair⟩ := ih hroom
    unfold relativeOutputOffsetsToAbsolute.go
    refine ⟨?_, List.pairwise_cons.2 ⟨hge, hpair⟩⟩
    intro i hi
    rcases List.mem_cons.1 hi with rfl | hi
    · omega
    · have := hge i hi
      omega

/-- Then none is above the last one. -/
theorem absolute_le_last {off : List UInt64} {i last : UInt64}
    (h : (off.map UInt64.toNat).sum < 2 ^ 64) (hi : i ∈ relativeOutputOffsetsToAbsolute off)
    (hlast : (relativeOutputOffsetsToAbsolute off).getLast? = some last) :
    i.toNat ≤ last.toNat := by
  have hfits : (0 : UInt64).toNat + (off.map UInt64.toNat).sum < 2 ^ 64 := by
    rw [UInt64.toNat_zero, Nat.zero_add]
    exact h
  have hpair := (absolute_ascending hfits).2
  obtain ⟨before, hbefore⟩ := List.getLast?_eq_some_iff.1 hlast
  unfold relativeOutputOffsetsToAbsolute at hi hbefore
  rw [hbefore] at hi hpair
  rcases List.mem_append.1 hi with hi | hi
  · exact (List.pairwise_append.1 hpair).2.2 i hi last (List.mem_singleton.2 rfl)
  · rw [List.mem_singleton.1 hi]

/-! ## What the check computes -/

/-- Every output the inputs name can be read, and `m` is the highest block of
their last ones, or what there was before. -/
structure LastsUpTo (s : Storage) (vin : List Txin) (start m : Nat) : Prop where
  read : ∀ i ∈ vin, ∀ r ∈ referenced i, ∃ k, s.keeperHeight r = some k
  start_le : start ≤ m
  last_le : ∀ i ∈ vin, ∀ k, s.lastHeight i = some k → k ≤ m
  attained : m = start ∨ ∃ i ∈ vin, s.lastHeight i = some m

section

variable {env : Env} {now : Nat} {s : Storage}

/-- The ring has, in order, the blocks of the outputs named. -/
theorem scanOutputs_heights {amount : UInt64} {size : Nat} {is : List UInt64}
    {ring : List (PublicKey × Nat)}
    (h : s.scanOutputs env now (s.mOutputs.getD amount []) size is = .ok (some ring)) :
    is.map (fun i => s.keeperHeight (amount, i)) = ring.map fun k => some k.2 := by
  induction is generalizing ring with
  | nil =>
    cases h
    rfl
  | cons i rest ih =>
    unfold Storage.scanOutputs at h
    split at h
    · cases h
    · cases h
    · next k hk =>
      split at h
      · next ks hks =>
        cases h
        obtain ⟨p, txe, o, key, mix, hp, hread, -, -, -, -, rfl⟩ := scanOutput_eq_some.1 hk
        rw [List.map_cons, List.map_cons, ih hks,
          Storage.keeperHeight_eq_some.2 ⟨p, txe, hp, hread, rfl⟩]
      · next hno =>
        exact absurd h (hno ring)

/-- One input. -/
theorem checkTxInput_lasts {amount : UInt64} {keyOffsets : List UInt64} {kImage : KeyImage}
    {hash : Hash} {sig : List Signature} {maxUsed m : Nat}
    (h : s.checkTxInput env now amount keyOffsets kImage hash sig maxUsed = .ok (some m)) :
    (∀ r ∈ referenced (.toKey amount keyOffsets kImage), ∃ k, s.keeperHeight r = some k) ∧
      ∃ top, s.lastHeight (.toKey amount keyOffsets kImage) = some top ∧ m = max maxUsed top := by
  unfold Storage.checkTxInput at h
  split at h
  · cases h
  · cases h
  · next ring hring =>
    unfold Storage.scanOutputkeysForIndexes at hring
    split at hring
    · cases hring
    · next outs houts =>
      split at hring
      · cases hring
      · next hne =>
        have hgetD : s.mOutputs.getD amount [] = outs := by
          rw [Std.ExtTreeMap.getD_eq_getD_getElem?, houts]
          rfl
        rw [← hgetD] at hring
        have heights := scanOutputs_heights hring
        have hm : m = max maxUsed ((ring.getLast?.map (·.2)).getD 0) := by
          simp only at h
          split at h
          · exact (Option.some.inj (Except.ok.inj h)).symm
          · split at h
            · cases h
            · split at h
              · exact (Option.some.inj (Except.ok.inj h)).symm
              · cases h
        refine ⟨?_, ?_⟩
        · intro r hr
          obtain ⟨i, hi, rfl⟩ := List.mem_map.1 hr
          have hmem : s.keeperHeight (amount, i) ∈ ring.map fun k => some k.2 := by
            rw [← heights]
            exact List.mem_map.2 ⟨i, hi, rfl⟩
          obtain ⟨k, -, hk⟩ := List.mem_map.1 hmem
          exact ⟨k.2, hk.symm⟩
        -- the heights come in the order of the offsets, so the last is that of the last offset
        · have hlast := congrArg List.getLast? heights
          rw [List.getLast?_map, List.getLast?_map] at hlast
          have hsome : ∃ i, (relativeOutputOffsetsToAbsolute keyOffsets).getLast? = some i := by
            refine Option.ne_none_iff_exists'.1 fun hnone => hne ?_
            rw [List.getLast?_eq_none_iff] at hnone
            cases keyOffsets with
            | nil => rfl
            | cons o rest => cases hnone
          obtain ⟨i, hi⟩ := hsome
          rw [hi, Option.map_some] at hlast
          obtain ⟨k, hk, hki⟩ := Option.map_eq_some_iff.1 hlast.symm
          refine ⟨k.2, ?_, ?_⟩
          · unfold Storage.lastHeight referenced
            rw [List.getLast?_map, hi]
            exact hki.symm
          · rw [hm, hk]
            rfl

/-- All of them. -/
theorem checkInputs_lasts {hash : Hash} {vin : List Txin} {sigs : List (List Signature)}
    {start m : Nat} (h : s.checkInputs env now hash vin sigs start = .ok (some m)) :
    LastsUpTo s vin start m := by
  induction vin generalizing sigs start with
  | nil =>
    unfold Storage.checkInputs at h
    split at h
    · cases h
      refine ⟨?_, Nat.le_refl _, ?_, .inl rfl⟩
      · intro i hi
        cases hi
      · intro i hi
        cases hi
    · cases h
  | cons i rest ih =>
    cases i with
    | toKey amount keyOffsets kImage =>
      unfold Storage.checkInputs at h
      split at h
      · cases h
      · split at h
        · cases h
        · split at h
          · cases h
          · split at h
            · next m₁ hone =>
              obtain ⟨hread, top, htop, rfl⟩ := checkTxInput_lasts hone
              have hrest := ih h
              have hle := hrest.start_le
              refine ⟨?_, (Nat.le_max_left _ _).trans hle, ?_, ?_⟩
              · intro j hj
                rcases List.mem_cons.1 hj with rfl | hj
                · exact hread
                · exact hrest.read j hj
              · intro j hj k hk
                rcases List.mem_cons.1 hj with rfl | hj
                · rw [htop] at hk
                  exact Option.some.inj hk ▸ (Nat.le_max_right _ _).trans hle
                · exact hrest.last_le j hj k hk
              · rcases hrest.attained with heq | ⟨j, hj, hk⟩
                -- the maximum is the first input's, or what it was before
                · by_cases hmore : start ≤ top
                  · refine .inr ⟨_, List.mem_cons_self, ?_⟩
                    rw [heq, max_eq_right hmore]
                    exact htop
                  · exact .inl (heq.trans (max_eq_left (Nat.le_of_not_le hmore)))
                · exact .inr ⟨j, List.mem_cons_of_mem _ hj, hk⟩
            · next hno => exact absurd h (hno m)
    | _ =>
      unfold Storage.checkInputs at h
      cases h

end

/-! ## Chains with consistent output indexes -/

/-- The global output indexes are consistent, and the entries know their
block. -/
structure ConsistentOutputs (env : Env) (s : Storage) : Prop where
  indexes : GlobalIndexesConsistent env s
  keepers : ∀ t txe, s.transactionByIndex t = .ok txe → txe.mKeeperBlockHeight = t.block

/-- The entries of every block carry its number. -/
def KeepersExact (bs : List BlockEntry) : Prop :=
  ∀ (b : Nat) e, bs[b]? = some e → ∀ t ∈ e.transactions, t.mKeeperBlockHeight = b

theorem KeepersExact.congr {bs bs' : List BlockEntry} (h : KeepersExact bs)
    (hb : forgetFlags bs' = forgetFlags bs) : KeepersExact bs' := by
  intro b e he t ht
  have hb' : (forgetFlags bs)[b]? = some e.forgetFlags := by
    rw [← hb, forgetFlags, List.getElem?_map, he]
    rfl
  rw [forgetFlags, List.getElem?_map] at hb'
  obtain ⟨e₀, he₀, heq⟩ := Option.map_eq_some_iff.1 hb'
  have htx : t.forgetFlags ∈ e₀.forgetFlags.transactions := by
    rw [heq]
    exact List.mem_map.2 ⟨t, ht, rfl⟩
  obtain ⟨t₀, ht₀, hteq⟩ := List.mem_map.1 htx
  have hkeeper := congrArg TransactionEntry.mKeeperBlockHeight hteq
  exact hkeeper.symm.trans (h b e₀ he₀ t₀ ht₀)

theorem TxsTaken.keepers {env : Env} {now k : Nat} {ids : List Hash} {n n' : Node}
    {taken : List TakenTx} (h : TxsTaken env now k ids n taken n') :
    ∀ t ∈ taken, t.entry.mKeeperBlockHeight = n.chain.mBlocks.length := by
  induction h with
  | nil =>
    intro t ht
    cases ht
  | cons _ _ recorded _ ih =>
    intro t ht
    rcases List.mem_cons.1 ht with rfl | ht
    · show TransactionEntry.mKeeperBlockHeight _ = _
      rw [recorded.entry]
      rfl
    · rw [ih t ht]
      exact Storage.length_of_frame recorded.frame

theorem Tower.keepers {env : Env} {s : Storage} (h : Tower env s) : KeepersExact s.mBlocks := by
  induction h with
  | base view =>
    have hnone : KeepersExact [] := by
      intro b e he
      cases he
    exact hnone.congr view.blocks
  | @block now bl n n' d _ sound c _ view ih =>
    suffices hnext : KeepersExact (n.chain.mBlocks ++ [c.entry]) from
      hnext.congr (view.blocks.trans (c.blocks_eq sound))
    intro b e he t ht
    by_cases hlt : b < n.chain.mBlocks.length
    · rw [List.getElem?_append_left hlt] at he
      exact ih b e he t ht
    · have hlen := (List.getElem?_eq_some_iff.1 he).1
      rw [List.length_append, List.length_singleton] at hlen
      have hb : b = n.chain.mBlocks.length := by omega
      rw [hb, List.getElem?_concat_length] at he
      cases he
      rw [c.entry_transactions] at ht
      rcases List.mem_cons.1 ht with rfl | ht
      · rw [c.recorded.entry]
        exact hb.symm
      · obtain ⟨t', ht', rfl⟩ := List.mem_map.1 ht
        rw [c.txs.keepers t' ht', hb, c.coinbase_blocks]

theorem PushPopRun.consistentOutputs {env : Env} {n : Node} (h : PushPopRun env n) :
    ConsistentOutputs env n.chain where
  indexes := h.tower.1.globalIndexesConsistent
  keepers t txe ht := by
    obtain ⟨e, he, hmem⟩ := transactionByIndex_eq_ok.1 ht
    exact h.tower.1.keepers t.block e he txe (List.mem_of_getElem? hmem)

section

variable {env : Env} {s s' : Storage}

/-- Behind an output there are only outputs of its block and of higher ones. -/
theorem ConsistentOutputs.keeper_mono (h : ConsistentOutputs env s) {a i j : UInt64} {k l : Nat}
    (hij : i.toNat ≤ j.toNat) (hi : s.keeperHeight (a, i) = some k)
    (hj : s.keeperHeight (a, j) = some l) : k ≤ l := by
  obtain ⟨p, txe, hp, hread, rfl⟩ := Storage.keeperHeight_eq_some.1 hi
  obtain ⟨q, txe', hq, hread', rfl⟩ := Storage.keeperHeight_eq_some.1 hj
  rw [h.keepers _ _ hread, h.keepers _ _ hread']
  rcases Nat.lt_or_eq_of_le hij with hlt | heq
  · obtain ⟨hi', rfl⟩ := List.getElem?_eq_some_iff.1 hp
    obtain ⟨hj', rfl⟩ := List.getElem?_eq_some_iff.1 hq
    rcases List.pairwise_iff_getElem.1 (h.indexes.order a) _ _ hi' hj' hlt with hb | ⟨heq, -⟩
    · rcases hb with hb | ⟨hb, -⟩
      · exact hb.le
      · exact hb.le
    · exact (congrArg TransactionIndex.block heq).le
  · rw [show (s.mOutputs.getD (a, i).1 [])[(a, i).2.toNat]? =
      (s.mOutputs.getD (a, j).1 [])[(a, j).2.toNat]? by rw [heq]] at hp
    rw [hp] at hq
    exact (congrArg (fun q : TransactionIndex × UInt16 => q.1.block) (Option.some.inj hq)).le

/-- **The highest block found is the highest one** as far as the last offsets
tell. -/
theorem maxKeeperHeight_eq_iff (h : ConsistentOutputs env s) {tx : TransactionPrefix} {m : Nat}
    (hm : LastsUpTo s tx.vin 0 m) : m = s.maxKeeperHeight tx ↔ s.LastOnTop tx := by
  -- a height that is attained is the maximum as soon as nothing is above it
  have hall : m = s.maxKeeperHeight tx ↔
      ∀ i ∈ tx.vin, ∀ r ∈ referenced i, ∀ k, s.keeperHeight r = some k → k ≤ m := by
    constructor
    · rintro rfl i hi r hr k hk
      exact List.le_max_of_le' 0 (List.mem_filterMap.2 ⟨r, List.mem_flatMap.2 ⟨i, hi, hr⟩, hk⟩)
        (Nat.le_refl k)
    · intro hle
      refine Nat.le_antisymm ?_ ?_
      · rcases hm.attained with h0 | ⟨i, hi, hlast⟩
        · exact h0 ▸ Nat.zero_le _
        · obtain ⟨r, hr, hk⟩ := Option.bind_eq_some_iff.1 hlast
          exact List.le_max_of_le' 0 (List.mem_filterMap.2
            ⟨r, List.mem_flatMap.2 ⟨i, hi, List.mem_of_getLast? hr⟩, hk⟩) (Nat.le_refl m)
      · show ((tx.vin.flatMap referenced).filterMap s.keeperHeight).foldr max ⊥ ≤ m
        apply List.max_le_of_forall_le
        intro k hk
        obtain ⟨r, hr, hk⟩ := List.mem_filterMap.1 hk
        obtain ⟨i, hi, hr⟩ := List.mem_flatMap.1 hr
        exact hle i hi r hr k hk
  rw [hall]
  constructor
  · intro hle amount keyOffsets kImage hi _ r hr k hk
    have hkm := hle _ hi r hr k hk
    rcases hm.attained with h0 | ⟨j, hj, hlast⟩
    · -- every block is the first one, the last output of this input's too
      obtain ⟨last, hlast⟩ : ∃ last, (referenced (.toKey amount keyOffsets kImage)).getLast? =
          some last :=
        Option.ne_none_iff_exists'.1 fun hnone => by
          rw [List.getLast?_eq_none_iff.1 hnone] at hr
          cases hr
      obtain ⟨top, htop⟩ := hm.read _ hi last (List.mem_of_getLast? hlast)
      refine ⟨_, hi, top, ?_, by omega⟩
      unfold Storage.lastHeight
      rw [hlast]
      exact htop
    · exact ⟨j, hj, m, hlast, hkm⟩
  · intro htop i hi r hr k hk
    cases i with
    | toKey amount keyOffsets kImage =>
      -- offsets that do not wrap rise, and keeper heights rise with them
      by_cases hwraps : 2 ^ 64 ≤ (keyOffsets.map UInt64.toNat).sum
      · obtain ⟨j, hj, top, hlast, hle⟩ := htop amount keyOffsets kImage hi hwraps r hr k hk
        exact hle.trans (hm.last_le j hj top hlast)
      · obtain ⟨x, hx, rfl⟩ := List.mem_map.1 hr
        obtain ⟨y, hy⟩ : ∃ y, (relativeOutputOffsetsToAbsolute keyOffsets).getLast? = some y :=
          Option.ne_none_iff_exists'.1 fun hnone => by
            rw [List.getLast?_eq_none_iff.1 hnone] at hx
            cases hx
        have hlast : (referenced (.toKey amount keyOffsets kImage)).getLast? = some (amount, y) := by
          unfold referenced
          rw [List.getLast?_map, hy]
          rfl
        obtain ⟨top, hread⟩ := hm.read _ hi _ (List.mem_of_getLast? hlast)
        have hle := h.keeper_mono (absolute_le_last (Nat.not_le.1 hwraps) hx hy) hk hread
        refine hle.trans (hm.last_le _ hi top ?_)
        unfold Storage.lastHeight
        rw [hlast]
        exact hread
    | _ => cases hr

/-! ## Another chain with that block -/

theorem OutputBefore.asymm {p q : TransactionIndex × UInt16} (h : OutputBefore p q) :
    ¬ OutputBefore q p := by
  rintro h'
  have hlt : ∀ {x y : UInt16}, x < y → ¬ y < x := by
    intro x y hxy hyx
    rw [UInt16.lt_iff_toNat_lt] at hxy hyx
    omega
  rcases h with (h | ⟨hb, ht⟩) | ⟨heq, hk⟩
  · rcases h' with (h' | ⟨hb', -⟩) | ⟨heq', -⟩
    · omega
    · omega
    · rw [heq'] at h
      exact Nat.lt_irrefl _ h
  · rcases h' with (h' | ⟨-, ht'⟩) | ⟨heq', -⟩
    · omega
    · exact hlt ht ht'
    · rw [heq'] at ht
      exact UInt16.lt_irrefl _ ht
  · rcases h' with (h' | ⟨-, ht'⟩) | ⟨-, hk'⟩
    · rw [heq] at h'
      exact Nat.lt_irrefl _ h'
    · rw [heq] at ht'
      exact UInt16.lt_irrefl _ ht'
    · exact hlt hk hk'

/-- In two sorted lists with the same elements before one, it stands at the same
position. -/
theorem position_eq {l l' : AmountOuts} {q : TransactionIndex × UInt16} {i j : Nat}
    (hl : l.Pairwise OutputBefore) (hl' : l'.Pairwise OutputBefore) (hi : l[i]? = some q)
    (hj : l'[j]? = some q) (hsame : ∀ p, OutputBefore p q → (p ∈ l ↔ p ∈ l')) : i = j := by
  have hmem : ∀ {l : AmountOuts} {i : Nat}, l.Pairwise OutputBefore → l[i]? = some q →
      (l.take i).Nodup ∧ (l.take i).length = i ∧ ∀ p, p ∈ l.take i ↔ OutputBefore p q ∧ p ∈ l := by
    intro l i hl hi
    obtain ⟨hlt, hq⟩ := List.getElem?_eq_some_iff.1 hi
    have hsplit : l = l.take i ++ q :: l.drop (i + 1) := by
      rw [← hq, ← List.drop_eq_getElem_cons hlt, List.take_append_drop]
    have hnodup : l.Nodup := hl.imp fun hpq heq => by
      rw [heq] at hpq
      exact hpq.irrefl
    refine ⟨hnodup.sublist (List.take_sublist _ _), List.length_take_of_le hlt.le, ?_⟩
    rw [hsplit, List.pairwise_append, List.pairwise_cons] at hl
    intro p
    constructor
    · intro hp
      exact ⟨hl.2.2 p hp q List.mem_cons_self, List.take_subset _ _ hp⟩
    · rintro ⟨hbefore, hp⟩
      rw [hsplit] at hp
      rcases List.mem_append.1 hp with hp | hp
      · exact hp
      · rcases List.mem_cons.1 hp with rfl | hp
        · exact absurd hbefore (OutputBefore.irrefl _)
        · exact absurd hbefore (hl.2.1.1 p hp).asymm
  obtain ⟨hnd, hlen, hin⟩ := hmem hl hi
  obtain ⟨hnd', hlen', hin'⟩ := hmem hl' hj
  have hperm : (l.take i).Perm (l'.take j) := by
    refine (List.perm_ext_iff_of_nodup hnd hnd').2 fun p => ?_
    rw [hin, hin']
    exact and_congr_right (hsame p)
  rw [← hlen, ← hlen', hperm.length_eq]

/-- Two chains from one genesis block, told apart by the ids of their blocks. -/
structure SameLine (env : Env) (a b : Storage) : Prop where
  origin : SameOrigin env a b
  contents : NoCollision env a.mBlocks b.mBlocks

theorem SameLine.symm (h : SameLine env s s') : SameLine env s' s where
  origin := {
    left := h.origin.right
    right := h.origin.left
    genesis := h.origin.genesis.symm
    collisionFree := fun e he e' he' heq => (h.origin.collisionFree e' he' e he heq.symm).symm }
  contents e he e' he' heq := (h.contents e' he' e he heq.symm).symm

/-- Up to a common block the same transactions are in the same places. -/
theorem SameLine.read (h : SameLine env s s') {m : Nat} (hm : CommonAt env s s' m)
    {t : TransactionIndex} {txe : TransactionEntry} (ht : t.block ≤ m)
    (hread : s.transactionByIndex t = .ok txe) :
    ∃ txe', s'.transactionByIndex t = .ok txe' ∧
      txe'.tx.toTransactionPrefix = txe.tx.toTransactionPrefix := by
  obtain ⟨e, he, htx⟩ := transactionByIndex_eq_ok.1 hread
  obtain ⟨id, ha, hb⟩ := h.origin.commonAt_iff.1 (h.origin.commonAt_of_le hm ht)
  obtain ⟨e₁, he₁, hid⟩ := getElem?_blockIds.1 ha
  obtain ⟨e', he', hid'⟩ := getElem?_blockIds.1 hb
  rw [he] at he₁
  cases he₁
  have hcontent := congrArg Prod.snd (h.contents e (List.mem_of_getElem? he) e'
    (List.mem_of_getElem? he') (hid.trans hid'.symm))
  have hprefix : (e'.transactions.map (·.tx.toTransactionPrefix))[t.transaction.toNat]? =
      some txe.tx.toTransactionPrefix := by
    have hsame : e.transactions.map (·.tx.toTransactionPrefix) =
        e'.transactions.map (·.tx.toTransactionPrefix) := hcontent
    rw [← hsame, List.getElem?_map, htx]
    rfl
  rw [List.getElem?_map] at hprefix
  obtain ⟨txe', htx', heq⟩ := Option.map_eq_some_iff.1 hprefix
  exact ⟨txe', transactionByIndex_eq_ok.2 ⟨e', he', htx'⟩, heq⟩

/-- So the same outputs of an amount are in them. -/
theorem SameLine.mem_outputs (h : SameLine env s s') (hs : ConsistentOutputs env s)
    (hs' : ConsistentOutputs env s') {m : Nat} (hm : CommonAt env s s' m) {a : UInt64}
    {p : TransactionIndex × UInt16} (hp : p.1.block ≤ m) (hmem : p ∈ s.mOutputs.getD a []) :
    p ∈ s'.mOutputs.getD a [] := by
  obtain ⟨i, hi⟩ := List.getElem?_of_mem hmem
  obtain ⟨txe, o, hread, ho, rfl⟩ := hs.indexes.output a i p.1 p.2 hi
  obtain ⟨txe', hread', heq⟩ := h.read hm hp hread
  rw [← heq] at ho
  obtain ⟨g, -, hplace⟩ := hs'.indexes.place p.1 txe' hread' p.2.toNat o ho
  rw [UInt16.ofNat_toNat] at hplace
  exact List.mem_of_getElem? ((hplace g).2 rfl)

/-- And an index names the same output. -/
theorem SameLine.designated (h : SameLine env s s') (hs : ConsistentOutputs env s)
    (hs' : ConsistentOutputs env s') {m : Nat} (hm : CommonAt env s s' m) {r : UInt64 × UInt64}
    {k : Nat} (hk : s.keeperHeight r = some k) (hkm : k ≤ m) :
    ∃ out, s.designated r = some out ∧ s'.designated r = some out := by
  obtain ⟨q, txe, hq, hread, rfl⟩ := Storage.keeperHeight_eq_some.1 hk
  rw [hs.keepers _ _ hread] at hkm
  obtain ⟨txe₁, o, hread₁, ho, ha⟩ := hs.indexes.output r.1 r.2.toNat q.1 q.2 hq
  rw [hread] at hread₁
  cases hread₁
  obtain ⟨txe', hread', heq⟩ := h.read hm hkm hread
  have ho' : txe'.tx.vout[q.2.toNat]? = some o := by
    rw [heq]
    exact ho
  have hm' : CommonAt env s' s m := by
    obtain ⟨id, hid, hid'⟩ := h.origin.commonAt_iff.1 hm
    exact ⟨id, hid', List.mem_of_getElem? hid⟩
  obtain ⟨j, hj⟩ := List.getElem?_of_mem
    (h.mem_outputs hs hs' hm hkm (List.mem_of_getElem? hq))
  have hij : r.2.toNat = j := by
    refine position_eq (hs.indexes.order r.1) (hs'.indexes.order r.1) hq hj ?_
    intro p hbefore
    have hp : p.1.block ≤ m := by
      rcases hbefore with (hb | ⟨hb, -⟩) | ⟨heq, -⟩
      · exact hb.le.trans hkm
      · exact hb.le.trans hkm
      · rw [heq]
        exact hkm
    exact ⟨h.mem_outputs hs hs' hm hp, h.symm.mem_outputs hs' hs hm' hp⟩
  rw [← hij] at hj
  exact ⟨(q, o), Storage.designated_eq_some.2 ⟨hq, txe, hread, ho⟩,
    Storage.designated_eq_some.2 ⟨hj, txe', hread', ho'⟩⟩

end

/-- **`max_used_block_height` is the highest block the transaction refers to**,
and with it every output it refers to is on each chain that has that block,
exactly when the inputs whose offsets wrap have their highest output last. -/
theorem max_used_height_iff {env : Env} {now : Nat} {s : Storage} {tx : Transaction} {height : Nat}
    {id : Hash} (hs : ConsistentOutputs env s)
    (h : s.checkTxInputsWithId env now tx = .ok (some (height, id))) :
    (height = s.maxKeeperHeight tx.toTransactionPrefix ∧
      ∀ s', ConsistentOutputs env s' → SameLine env s s' → id ∈ blockIds env s'.mBlocks →
        ∀ i ∈ tx.vin, ∀ r ∈ referenced i,
          ∃ out, s.designated r = some out ∧ s'.designated r = some out) ↔
    s.LastOnTop tx.toTransactionPrefix := by
  unfold Storage.checkTxInputsWithId at h
  split at h
  · cases h
  · cases h
  · next m hm =>
    split at h
    · cases h
    · next e he =>
      cases h
      have hlasts := checkInputs_lasts hm
      have hiff := maxKeeperHeight_eq_iff hs hlasts
      constructor
      · intro hmax
        exact hiff.1 hmax.1
      · intro htop
        have hmax := hiff.2 htop
        refine ⟨hmax, ?_⟩
        intro s' hs' hline hmem i hi r hr
        obtain ⟨k, hk⟩ := hlasts.read i hi r hr
        have hkm : k ≤ height := by
          rw [hmax]
          exact List.le_max_of_le' 0
            (List.mem_filterMap.2 ⟨r, List.mem_flatMap.2 ⟨i, hi, hr⟩, hk⟩) (Nat.le_refl k)
        exact hline.designated hs hs' ⟨_, getElem?_blockIds.2 ⟨e, he, rfl⟩, hmem⟩ hk hkm

namespace Devnet

/-- Blocks pushed in turn, with few transactions and outputs in each. -/
def pushAll : List Block → Node → Option Node
  | [], n => some n
  | bl :: rest, n =>
    match handleBlockToMainChain env now bl (getBlockHash env bl) n with
    | .ok .added n' =>
      if n'.chain.mBlocks.all (fun e => decide (e.transactions.length < 65536) &&
          e.transactions.all fun t => decide (t.tx.vout.length < 65536)) then pushAll rest n'
      else none
    | _ => none

theorem pushPopRun_of_pushAll {bls : List Block} {n n' : Node} (hn : PushPopRun env n)
    (h : pushAll bls n = some n') : PushPopRun env n' := by
  induction bls generalizing n with
  | nil =>
    cases h
    exact hn
  | cons bl rest ih =>
    unfold pushAll at h
    split at h
    · next m hadded =>
      split at h
      · next hfits =>
        refine ih (hn.push hadded ?_) h
        intro e he
        have hall := List.all_eq_true.1 hfits e he
        rw [Bool.and_eq_true, decide_eq_true_eq, List.all_eq_true] at hall
        exact ⟨hall.1, fun t ht => of_decide_eq_true (hall.2 t ht)⟩
      · cases h
    · cases h

/-- Sixty blocks on the genesis block: two coinbases can be spent. -/
def sixty : Option Node :=
  pushAll (genesis :: (List.range 60).map fun k => mainBlock (k + 1)) (Node.initial ∅)

def sixtyNode : Node := sixty.getD (Node.initial ∅)

theorem pushPopRun_sixtyNode (h : sixty.isSome = true) : PushPopRun env sixtyNode := by
  obtain ⟨n, hn⟩ := Option.isSome_iff_exists.1 h
  rw [sixtyNode, hn]
  exact pushPopRun_of_pushAll (.start ∅) hn

/-- A ring of two coinbase outputs. -/
def ringOf (keyOffsets : List UInt64) : Transaction :=
  { spend 1 0 1 0 [] with
    vin := [.toKey unit keyOffsets 1]
    signatures := [[nullSig, nullSig]] }

end Devnet

/-- A ring that ascends: its second output is in the highest block. -/
theorem max_used_height_ascending :
    ∃ n id, PushPopRun Devnet.env n ∧
      n.chain.checkTxInputsWithId Devnet.env Devnet.now (Devnet.ringOf [0, 1]) = .ok (some (1, id)) ∧
      n.chain.maxKeeperHeight (Devnet.ringOf [0, 1]).toTransactionPrefix = 1 := by
  have heval : Devnet.sixty.isSome = true ∧
      Devnet.sixtyNode.chain.checkTxInputsWithId Devnet.env Devnet.now (Devnet.ringOf [0, 1]) =
        .ok (some (1, getBlockHash Devnet.env (Devnet.mainBlock 1))) := by
    decide +kernel
  obtain ⟨hrun, hcheck⟩ := heval
  have hpushed := Devnet.pushPopRun_sixtyNode hrun
  generalize Devnet.sixtyNode = n at hcheck hpushed
  refine ⟨n, _, hpushed, hcheck, ?_⟩
  refine ((max_used_height_iff hpushed.consistentOutputs hcheck).2 ?_).1.symm
  -- nothing wraps
  intro amount keyOffsets kImage hi hwraps
  cases List.mem_singleton.1 hi
  exact absurd hwraps (by decide)

/-- A ring that wraps back to the genesis block: the block of its first output is
not seen. -/
theorem wrapped_ring_understates :
    ∃ n id, PushPopRun Devnet.env n ∧ ConsistentOutputs Devnet.env n.chain ∧
      n.chain.checkTxInputsWithId Devnet.env Devnet.now (Devnet.ringOf [1, 2 ^ 64 - 1]) =
        .ok (some (0, id)) ∧
      n.chain.maxKeeperHeight (Devnet.ringOf [1, 2 ^ 64 - 1]).toTransactionPrefix = 1 := by
  have heval : Devnet.sixty.isSome = true ∧
      Devnet.sixtyNode.chain.checkTxInputsWithId Devnet.env Devnet.now
        (Devnet.ringOf [1, 2 ^ 64 - 1]) = .ok (some (0, getBlockHash Devnet.env Devnet.genesis)) ∧
      Devnet.sixtyNode.chain.maxKeeperHeight
        (Devnet.ringOf [1, 2 ^ 64 - 1]).toTransactionPrefix = 1 := by
    decide +kernel
  obtain ⟨hrun, hcheck, hmax⟩ := heval
  have hpushed := Devnet.pushPopRun_sixtyNode hrun
  exact ⟨_, _, hpushed, hpushed.consistentOutputs, hcheck, hmax⟩

end DarknetSpace
