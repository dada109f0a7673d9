import DarknetSpace.Core.CacheFiles

/-!
# Loading the block cache

A cache file can be used when it belongs to the chain at hand and was read to its end,
or to a point before its first output (`Usable`). The other files do harm, which is
proved here by counting: a coinbase that was left in `m_outputs` is there once more
after the rebuild than the chain has it (`coinbaseCount`), as long as it pays something
and its amount has no alias. That ids do not collide is assumed too, since the file
is recognised by the id of its last block.

Main result: `load_gives_true_indexes_iff_usable`, for a file that one node wrote and
another reads, any order of the maps and any cut. `load_of_stale_cache_wrong` is a run
in which the file is of another chain.
-/

namespace DarknetSpace

open StateExn

section

variable {env : Env} {st d : Storage} {f : CacheFile} {last : BlockEntry}

/-! ## Files that cannot be used -/

/-- Two blocks with one id have one content. -/
def NoCollision (env : Env) (bs bs' : List BlockEntry) : Prop :=
  ∀ e ∈ bs, ∀ e' ∈ bs', getBlockHash env e.bl = getBlockHash env e'.bl → e.content = e'.content

theorem storedPrefix_of_ids {bs : List BlockEntry} (h : blockIds env st.mBlocks <+: blockIds env bs)
    (hc : NoCollision env st.mBlocks bs) : StoredPrefix st bs := by
  have hlen := h.length_le
  rw [length_blockIds, length_blockIds] at hlen
  unfold StoredPrefix
  rw [List.prefix_iff_eq_take, ← List.map_take, List.length_map]
  apply List.ext_getElem?
  intro k
  rw [List.getElem?_map, List.getElem?_map]
  by_cases hk : k < st.mBlocks.length
  · rw [List.getElem?_take_of_lt hk, List.getElem?_eq_getElem hk,
      List.getElem?_eq_getElem (hk.trans_le hlen)]
    refine congrArg some (hc _ (List.getElem_mem hk) _ (List.getElem_mem _) ?_)
    have hid := h.getElem (show k < (blockIds env st.mBlocks).length by rwa [length_blockIds])
    simpa only [blockIds, List.getElem_map] using hid
  · rw [List.getElem?_eq_none (by omega), List.getElem?_eq_none (by rw [List.length_take]; omega)]

/-- The first output of the coinbase at height `h`, as `m_outputs` has it. -/
def coinbaseEntry (h : Nat) : TransactionIndex × UInt16 := (⟨h, 0⟩, 0)

/-- How often `m_outputs` has it under an amount. -/
def coinbaseCount (h : Nat) (amount : UInt64) (s : Storage) : Nat :=
  (s.mOutputs.getD amount []).count (coinbaseEntry h)

/-- The coinbase of the block pays `amount` first, and has no alias. -/
def PaysPlainly (env : Env) (amount : UInt64) (e : BlockEntry) : Prop :=
  ∃ cb more o outs ei, e.transactions = cb :: more ∧ cb.tx.vout = o :: outs ∧ o.amount = amount ∧
    parseAndValidateTxExtra env cb.tx.toTransactionPrefix = .ok (true, ei) ∧ ei.mAlias.mAlias = []

theorem count_pushOutputs {h : Nat} {amount : UInt64} {idx : TransactionIndex} {i : Nat}
    {vout : List TxOut} {outputs : Map UInt64 AmountOuts} (hi : idx ≠ ⟨h, 0⟩ ∨ 0 < i)
    (hlen : i + vout.length ≤ 65536) :
    ((pushOutputs idx i vout outputs).1.getD amount []).count (coinbaseEntry h) =
      (outputs.getD amount []).count (coinbaseEntry h) := by
  induction vout generalizing i outputs with
  | nil => rfl
  | cons o rest ih =>
    rw [List.length_cons] at hlen
    refine (ih (.inr (by omega)) (by omega)).trans ?_
    rw [getD_pushOutput, List.count_append]
    split
    · rw [List.count_singleton, if_neg, Nat.add_zero]
      rw [beq_iff_eq, coinbaseEntry, Prod.mk.injEq]
      rintro ⟨hidx, hzero⟩
      rcases hi with hi | hi
      · exact hi hidx
      · have := congrArg UInt16.toNat hzero
        rw [UInt16.toNat_ofNat_of_lt' (show i < 65536 by omega)] at this
        exact hi.ne' this
    · rfl

theorem rebuildTransaction_ok {b t : Nat} {tx : Transaction} {r : Bool} {s s' : Storage}
    (h : rebuildTransaction env b t tx s = .ok r s') :
    ∃ sa, processBlockchainTxExtra env tx s = .ok r sa ∧
      if r = true then tx.vout.length < 65536 ∧ s' = { sa with
        mTransactions := sa.mTransactions.insertIfNew (getTransactionHash env tx)
          ⟨b, UInt16.ofNat t⟩
        mSpentKeys := sa.mSpentKeys.insertMany (keyImages tx.vin)
        mOutputs := (pushOutputs ⟨b, UInt16.ofNat t⟩ 0 tx.vout sa.mOutputs).1 }
      else s' = sa := by
  unfold rebuildTransaction at h
  obtain ⟨x, sa, hp, h⟩ := bind_eq_ok.1 h
  cases x with
  | false =>
    cases h
    exact ⟨_, hp, rfl⟩
  | true =>
    rw [if_pos rfl] at h
    split at h
    · cases h
    · next hlen =>
      rw [bind_of_ok (modify_apply _ sa)] at h
      cases h
      exact ⟨sa, hp, by omega, rfl⟩

theorem coinbaseCount_process {tx : Transaction} {r : Bool} {s sa : Storage} (h : Nat)
    (amount : UInt64) (hp : processBlockchainTxExtra env tx s = .ok r sa) :
    coinbaseCount h amount sa = coinbaseCount h amount s := by
  have : sa.mOutputs = s.mOutputs := by
    have := congrArg Storage.mOutputs (processBlockchainTxExtra_frame hp); exact this
  rw [coinbaseCount, coinbaseCount, this]

/-- No other transaction brings the coinbase's output back. -/
theorem coinbaseCount_rebuildTransactions {b t h : Nat} {es : List TransactionEntry}
    {s s' : Storage} (amount : UInt64) (ht : b ≠ h ∨ 0 < t)
    (hr : rebuildTransactions env b t es s = .ok ⟨⟩ s') :
    coinbaseCount h amount s' = coinbaseCount h amount s := by
  induction es generalizing t s with
  | nil =>
    unfold rebuildTransactions at hr
    split at hr
    · cases hr
    · cases hr
      rfl
  | cons e rest ih =>
    unfold rebuildTransactions at hr
    split at hr
    · cases hr
    · next hle =>
      obtain ⟨r, s₁, h₁, hr⟩ := bind_eq_ok.1 hr
      obtain ⟨sa, hp, hs₁⟩ := rebuildTransaction_ok h₁
      have hc : coinbaseCount h amount s₁ = coinbaseCount h amount s := by
        rw [← coinbaseCount_process h amount hp]
        cases r with
        | false =>
          have hs₁ : s₁ = sa := hs₁
          rw [hs₁]
        | true =>
          obtain ⟨hlen, rfl⟩ := hs₁
          refine count_pushOutputs (.inl fun hidx => ?_) (by omega)
          injection hidx with hb hti
          rcases ht with hb' | ht
          · exact hb' hb
          · have := congrArg UInt16.toNat hti
            rw [UInt16.toNat_ofNat_of_lt' (show t < 65536 by omega)] at this
            exact ht.ne' this
      cases r with
      | false =>
        cases hr
        exact hc
      | true => exact (ih (.inr (by omega)) hr).trans hc

theorem coinbaseCount_appendScratchpad {bl : Block} {s s' : Storage} (h : Nat) (amount : UInt64)
    (hp : appendScratchpad env bl s = .ok ⟨⟩ s') :
    coinbaseCount h amount s' = coinbaseCount h amount s := by
  unfold appendScratchpad at hp
  split at hp
  · cases hp
    rfl
  · cases hp

theorem coinbaseCount_rebuildBlock_of_ne {b h : Nat} {e : BlockEntry} {s s' : Storage}
    (amount : UInt64) (hb : b ≠ h) (hr : rebuildBlock env b e s = .ok ⟨⟩ s') :
    coinbaseCount h amount s' = coinbaseCount h amount s := by
  unfold rebuildBlock at hr
  rw [bind_of_ok (modify_apply _ s)] at hr
  obtain ⟨_, s₂, htx, hpad⟩ := bind_eq_ok.1 hr
  rw [coinbaseCount_appendScratchpad h amount hpad,
    coinbaseCount_rebuildTransactions amount (.inl hb) htx]
  rfl

/-- The coinbase's own block adds its output. -/
theorem coinbaseCount_rebuildBlock {b : Nat} {e : BlockEntry} {s s' : Storage} {amount : UInt64}
    (hpays : PaysPlainly env amount e) (hr : rebuildBlock env b e s = .ok ⟨⟩ s') :
    coinbaseCount b amount s' = coinbaseCount b amount s + 1 := by
  obtain ⟨cb, more, o, outs, ei, htxs, hvout, hamount, hparse, halias⟩ := hpays
  unfold rebuildBlock at hr
  rw [bind_of_ok (modify_apply _ s), htxs] at hr
  obtain ⟨_, s₂, htx, hpad⟩ := bind_eq_ok.1 hr
  rw [coinbaseCount_appendScratchpad b amount hpad]
  unfold rebuildTransactions at htx
  rw [if_neg (by omega)] at htx
  obtain ⟨r, s₃, hcb, htx⟩ := bind_eq_ok.1 htx
  obtain ⟨sa, hp, hs₃⟩ := rebuildTransaction_ok hcb
  unfold processBlockchainTxExtra at hp
  simp only [hparse, if_pos halias] at hp
  cases hp
  obtain ⟨hlen, rfl⟩ := hs₃
  rw [coinbaseCount_rebuildTransactions amount (.inr (Nat.succ_pos 0)) htx]
  show ((pushOutputs ⟨b, UInt16.ofNat 0⟩ 0 cb.tx.vout s.mOutputs).1.getD amount []).count
    (coinbaseEntry b) = _
  rw [hvout, List.length_cons] at hlen
  rw [hvout]
  refine (count_pushOutputs (.inr Nat.one_pos) (by omega)).trans ?_
  rw [getD_pushOutput, if_pos hamount, List.count_append]
  show List.count (coinbaseEntry b) (s.mOutputs.getD amount []) +
    List.count (coinbaseEntry b) [coinbaseEntry b] = _
  rw [List.count_singleton_self]
  rfl

theorem coinbaseCount_rebuildBlocks_of_lt {b h : Nat} {bs : List BlockEntry} {s s' : Storage}
    (amount : UInt64) (hb : h < b) (hr : rebuildBlocks env b bs s = .ok ⟨⟩ s') :
    coinbaseCount h amount s' = coinbaseCount h amount s := by
  induction bs generalizing b s with
  | nil =>
    cases hr
    rfl
  | cons e rest ih =>
    obtain ⟨_, s₁, he, hr⟩ := bind_eq_ok.1 hr
    rw [ih (by omega) hr, coinbaseCount_rebuildBlock_of_ne amount (by omega) he]

/-- A rebuild over the block adds the output once more. -/
theorem coinbaseCount_rebuildBlocks {b h : Nat} {bs : List BlockEntry} {e : BlockEntry}
    {s s' : Storage} {amount : UInt64} (hb : b ≤ h) (he : bs[h - b]? = some e)
    (hpays : PaysPlainly env amount e) (hr : rebuildBlocks env b bs s = .ok ⟨⟩ s') :
    coinbaseCount h amount s' = coinbaseCount h amount s + 1 := by
  induction bs generalizing b s with
  | nil => cases he
  | cons x rest ih =>
    obtain ⟨_, s₁, hx, hrest⟩ := bind_eq_ok.1 hr
    by_cases hbh : b = h
    · subst hbh
      rw [Nat.sub_self, List.getElem?_cons_zero] at he
      cases he
      rw [coinbaseCount_rebuildBlocks_of_lt amount (Nat.lt_succ_self b) hrest,
        coinbaseCount_rebuildBlock hpays hx]
    · have hsub : h - b = (h - (b + 1)) + 1 := by omega
      rw [hsub, List.getElem?_cons_succ] at he
      rw [ih (by omega) he hrest, coinbaseCount_rebuildBlock_of_ne amount hbh hx]

/-- What every file that ends behind its index leaves there. -/
theorem loadContainers_cut {cut : Cut} (hc : cut ≠ .complete) (s : Storage) :
    (BlockCacheSerializer.loadContainers f cut s).1 = false ∧
      (BlockCacheSerializer.loadContainers f cut s).2.mBlocksIndex = s.mBlocksIndex ∧
      (BlockCacheSerializer.loadContainers f cut s).2.mBlocks = s.mBlocks := by
  cases cut <;> first | exact absurd rfl hc | exact ⟨rfl, rfl, rfl⟩

/-- A file that ends too early: everything is rebuilt over what it left. -/
theorem loads_cut {s₀ : Storage} (hf : Written env st f) (hst : WellNumbered env st.mBlocks)
    (hd : Starts env d last) (h₀ : rebuildBlocks env 0 d.mBlocks d = .ok ⟨⟩ s₀) {cut : Cut}
    (h : LoadsTrueIndexes env f cut d) (hc : cut.PastIndex) (hcut : cut ≠ .complete)
    (hset : ¬ SetAside env st d.mBlocks) :
    ∃ s, SameIndexes s₀ s ∧ rebuildBlocks env 0 d.mBlocks
      (BlockCacheSerializer.loadContainers f cut { d with mBlocksIndex := f.blocksIndex }).2 =
        .ok ⟨⟩ s := by
  obtain ⟨s₁, s, h₁, hinit, hsame⟩ := h
  rw [hd.fresh] at h₁
  cases h₀.symm.trans (rebuildcache_eq_ok.1 h₁)
  obtain ⟨hl, -, hb⟩ := loadContainers_cut (f := f) hcut { d with mBlocksIndex := f.blocksIndex }
  rw [initIndexes_of_not_loaded hd.last (load_used hf hst hd cut hc hset) hl] at hinit
  have := rebuildcache_eq_ok.1 hinit
  rw [List.drop_zero, hb] at this
  exact ⟨s, hsame, this⟩

theorem Starts.index_rebuilt {s₀ : Storage} (hd : Starts env d last)
    (h₀ : rebuildBlocks env 0 d.mBlocks d = .ok ⟨⟩ s₀) :
    s₀.mBlocksIndex = blockIds env d.mBlocks := by
  have hempty : d.mBlocksIndex = [] := by
    have := congrArg Storage.mBlocksIndex hd.fresh
    exact this.symm
  have := rebuildBlocks_index h₀ (by rw [hempty]; exact hd.numbered.nodup)
  rwa [hempty] at this

/-- The index a file leaves has to be the start of the true one. -/
theorem ids_of_loads {s₀ : Storage} (hf : Written env st f) (hst : WellNumbered env st.mBlocks)
    (hd : Starts env d last) (h₀ : rebuildBlocks env 0 d.mBlocks d = .ok ⟨⟩ s₀) {cut : Cut}
    (hc : cut.PastIndex) (hset : ¬ SetAside env st d.mBlocks) (h : LoadsTrueIndexes env f cut d) :
    blockIds env st.mBlocks <+: blockIds env d.mBlocks := by
  rw [← hd.index_rebuilt h₀]
  by_cases hcut : cut = .complete
  · subst hcut
    obtain ⟨s₁, s, h₁, hinit, hsame⟩ := h
    rw [hd.fresh] at h₁
    cases h₀.symm.trans (rebuildcache_eq_ok.1 h₁)
    have hload := load_used hf hst hd .complete trivial hset
    obtain ⟨e, he, hsame', hblocks⟩ := loadContainers_complete (d := d) hf
    rw [he] at hload
    unfold initIndexes at hinit
    rw [bind_of_ok (get_apply d)] at hinit
    simp only [hd.last] at hinit
    rw [hload, bind_of_ok (set_apply d e)] at hinit
    simp only [not_true_eq_false, if_false] at hinit
    rw [← hf.sync, ← hsame'.blocksIndex, ← hsame.blocksIndex]
    split at hinit
    · split at hinit
      · exact (holds_rebuildBlocks (rebuildcache_eq_ok.1 hinit)).index
      · exact (holds_rebuildBlocks (rebuildcache_eq_ok.1 hinit)).index
    · cases hinit
      exact List.prefix_rfl
  · obtain ⟨s, hsame, hrebuild⟩ := loads_cut hf hst hd h₀ h hc hcut hset
    have hholds := (holds_rebuildBlocks hrebuild).index
    rw [(loadContainers_cut hcut _).2.1, hf.index] at hholds
    rw [← hsame.blocksIndex]
    exact hholds

/-- A file that ends behind its outputs leaves them all. -/
theorem not_loads_behind_outputs {s₀ : Storage} {amount : UInt64} {k : Nat} {e : BlockEntry}
    (hf : Written env st f) (hst : WellNumbered env st.mBlocks) (hexact : ExactIndexes env st)
    (hd : Starts env d last) (h₀ : rebuildBlocks env 0 d.mBlocks d = .ok ⟨⟩ s₀)
    (hk : k < st.mBlocks.length) (he : d.mBlocks[k]? = some e) (hpays : PaysPlainly env amount e)
    (hpre : StoredPrefix st d.mBlocks) (hset : ¬ SetAside env st d.mBlocks) {cut : Cut}
    (h : LoadsTrueIndexes env f cut d) (hc : cut.PastIndex) (hcut : cut ≠ .complete)
    (houts : (BlockCacheSerializer.loadContainers f cut
      { d with mBlocksIndex := f.blocksIndex }).2.mOutputs = Std.ExtTreeMap.ofList f.outputs) :
    False := by
  obtain ⟨s, hsame, hrebuild⟩ := loads_cut hf hst hd h₀ h hc hcut hset
  obtain ⟨sk, hsk, hfile, -⟩ := hpre.split hexact hd.fresh h₀
  have htake : (d.mBlocks.take st.mBlocks.length)[k]? = some e := by
    rw [List.getElem?_take_of_lt hk]
    exact he
  -- three rebuilds from the first block on: of the chain, of the file's chain, over the file
  have hchain := coinbaseCount_rebuildBlocks (Nat.zero_le k) he hpays h₀
  have hstored := coinbaseCount_rebuildBlocks (Nat.zero_le k) htake hpays hfile
  have hover := coinbaseCount_rebuildBlocks (Nat.zero_le k) he hpays hrebuild
  have hs : coinbaseCount k amount s = coinbaseCount k amount s₀ := by
    rw [coinbaseCount, coinbaseCount, hsame.outputs]
  have hleft : coinbaseCount k amount (BlockCacheSerializer.loadContainers f cut
      { d with mBlocksIndex := f.blocksIndex }).2 = coinbaseCount k amount sk := by
    rw [coinbaseCount, coinbaseCount, houts, FinMap.ofList_of_perm hf.outputs, hsk.outputs]
  omega

/-- A file whose first outputs were read. -/
theorem not_loads_with_outputs {s₀ : Storage} {k : Nat} (hf : Written env st f)
    (hst : WellNumbered env st.mBlocks) (hne : NoEmptyOuts st.mOutputs) (hd : Starts env d last)
    (h₀ : rebuildBlocks env 0 d.mBlocks d = .ok ⟨⟩ s₀) (hset : ¬ SetAside env st d.mBlocks)
    (h : LoadsTrueIndexes env f (.outputs k) d) : f.outputs.take k = [] := by
  obtain ⟨s, hsame, hrebuild⟩ := loads_cut hf hst hd h₀ h trivial (by simp) hset
  generalize hO : (Std.ExtTreeMap.ofList (f.outputs.take k) : Map UInt64 AmountOuts) = O
  have hover : Over f.blocksIndex (Std.ExtTreeMap.ofList f.transactions)
      (Std.ExtTreeSet.ofList f.spentKeys) O d
      (BlockCacheSerializer.loadContainers f (.outputs k)
        { d with mBlocksIndex := f.blocksIndex }).2 := by
    have hpart := over_part hd.fresh f.blocksIndex (Std.ExtTreeMap.ofList f.transactions)
      (Std.ExtTreeSet.ofList f.spentKeys)
    have hempty : d.mOutputs = ∅ := by
      have := congrArg Storage.mOutputs hd.fresh; exact this.symm
    refine ⟨hpart.index, hpart.transactions, hpart.spentKeys, fun a => ?_, fun a => ?_, rfl, rfl⟩
    · show (Std.ExtTreeMap.ofList (f.outputs.take k) : Map UInt64 AmountOuts).getD a [] = _
      rw [hO, hempty]
      simp
    · show a ∈ (Std.ExtTreeMap.ofList (f.outputs.take k) : Map UInt64 AmountOuts) ↔ _
      rw [hO, hempty]
      simp
  obtain ⟨s', hs', hover'⟩ := hover.rebuildBlocks h₀
  cases hs'.symm.trans hrebuild
  -- what was read comes before everything else, so it is nothing
  have hnone : ∀ a, O.getD a [] = [] := by
    intro a
    have := hover'.outputs a
    rw [hsame.outputs] at this
    exact List.self_eq_append_left.1 this
  cases htake : f.outputs.take k with
  | nil => rfl
  | cons x rest =>
    obtain ⟨a, v⟩ := x
    have hd := (FinMap.pairwise_of_perm_toList hf.outputs).sublist (List.take_sublist k f.outputs)
    have hx : O[a]? = some v := by
      rw [← hO]
      exact (FinMap.getElem?_ofList hd).2 (by rw [htake]; exact List.mem_cons_self)
    have hv := hnone a
    rw [Std.ExtTreeMap.getD_eq_getD_getElem?, hx, Option.getD_some] at hv
    have hst := FinMap.getElem?_ofList_take hf.outputs (k := k) (hO ▸ hx)
    exact absurd (hv ▸ hst) (hne a)

/-- A file that gives the true indexes can be used. -/
theorem usable_of_loads {s₀ : Storage} {amount : UInt64} {k : Nat} {e : BlockEntry}
    (hf : Written env st f) (hst : WellNumbered env st.mBlocks) (hexact : ExactIndexes env st)
    (hne : NoEmptyOuts st.mOutputs) (hd : Starts env d last)
    (h₀ : rebuildBlocks env 0 d.mBlocks d = .ok ⟨⟩ s₀)
    (hk : k < st.mBlocks.length) (he : d.mBlocks[k]? = some e) (hpays : PaysPlainly env amount e)
    (hnc : NoCollision env st.mBlocks d.mBlocks) (cut : Cut) (h : LoadsTrueIndexes env f cut d) :
    Usable env st d.mBlocks f cut := by
  have stored : cut.PastIndex → ¬ SetAside env st d.mBlocks → StoredPrefix st d.mBlocks :=
    fun hc hset => storedPrefix_of_ids (ids_of_loads hf hst hd h₀ hc hset h) hnc
  cases cut with
  | header => trivial
  | index k =>
    obtain ⟨s₁, s, h₁, hinit, hsame⟩ := h
    rw [hd.fresh] at h₁
    cases h₀.symm.trans (rebuildcache_eq_ok.1 h₁)
    rw [initIndexes_of_not_loaded hd.last rfl rfl] at hinit
    have := (holds_rebuildBlocks (rebuildcache_eq_ok.1 hinit)).index
    rw [hsame.blocksIndex, hd.index_rebuilt h₀] at this
    exact this
  | transactions k | spentKeys k | complete =>
    exact or_iff_not_imp_left.2 (stored trivial)
  | outputs k =>
    refine or_iff_not_imp_left.2 fun hset => ⟨stored trivial hset, ?_⟩
    exact not_loads_with_outputs hf hst hne hd h₀ hset h
  | aliases k | scratchpad read | others =>
    by_contra hset
    exact not_loads_behind_outputs hf hst hexact hd h₀ hk he hpays (stored trivial hset) hset
      h trivial (by simp) rfl

end

/-- **Loading a stored cache.** A file that `m` wrote over true indexes, ending
anywhere, gives the true indexes of the chain on disk if it can be used for it;
and, when ids do not collide and some coinbase `m` had seen pays something and
has no alias, only then. -/
theorem load_gives_true_indexes_iff_usable {env : Env} {n m : Node} (hn : Reachable env n)
    (hm : Reachable env m) (hexact : ExactIndexes env m.chain) {g f : CacheFile}
    (hstore : storeBlockchain m.chain = some g) (hre : g.Reordered f) {d s₀ : Storage}
    (hfresh : Fresh d) (hblocks : d.mBlocks = n.chain.mBlocks)
    (h₀ : rebuildcache env 0 d = .ok true s₀) (cut : Cut) :
    (Usable env m.chain d.mBlocks f cut → LoadsTrueIndexes env f cut d) ∧
      ∀ (k : Nat) e amount, k < m.chain.mBlocks.length → d.mBlocks[k]? = some e →
        PaysPlainly env amount e → NoCollision env m.chain.mBlocks d.mBlocks →
        (LoadsTrueIndexes env f cut d ↔ Usable env m.chain d.mBlocks f cut) := by
  obtain ⟨hnum, hne⟩ := hn.wellNumbered
  obtain ⟨hmnum, -⟩ := hm.wellNumbered
  have hms := (hm.sound (guaranteed_true env)).1
  obtain ⟨last, hlast⟩ : ∃ last, d.mBlocks.getLast? = some last := by
    rw [hblocks]
    exact Option.ne_none_iff_exists'.1 fun h => hne (List.getLast?_eq_none_iff.1 h)
  have hd : Starts env d last := ⟨hfresh, hblocks ▸ hnum, hlast⟩
  have hf := written_of_store hstore hre hms.index hmnum
  have h₀ := rebuildcache_eq_ok.1 h₀
  have enough := loads_of_usable hf hmnum hexact hd h₀ cut
  refine ⟨enough, fun k e amount hk he hpays hnc => ⟨fun h => ?_, enough⟩⟩
  exact usable_of_loads hf hmnum hexact hms.outputs hd h₀ hk he hpays hnc cut h

/-- The file of the genesis block, one block later. -/
theorem load_gives_true_indexes_iff_usable_devnet :
    ∃ f, Reachable Devnet.env Devnet.first ∧ storeBlockchain Devnet.first.chain = some f ∧
      LoadsTrueIndexes Devnet.env f .complete
        (Devnet.node ∅ Devnet.oneBlock).chain.clearAllCacheData := by
  have eval : isAdded (addNewBlock Devnet.env Devnet.now 3 Devnet.genesis (Node.initial ∅)) = true ∧
      (storeBlockchain Devnet.first.chain).isSome = true ∧
      (Devnet.run ∅ Devnet.oneBlock).isSome = true ∧
      isOkTrue (rebuildcache Devnet.env 0
        (Devnet.node ∅ Devnet.oneBlock).chain.clearAllCacheData) = true ∧
      (∀ e ∈ Devnet.first.chain.mBlocks, e.transactions.length < 65536 ∧
        ∀ t ∈ e.transactions, t.tx.vout.length < 65536) ∧
      Devnet.first.chain.mBlocks.map BlockEntry.content <+:
        (Devnet.node ∅ Devnet.oneBlock).chain.mBlocks.map BlockEntry.content := by
    decide +kernel
  obtain ⟨hg, hstore, hrun, hrebuild, hfits, hpre⟩ := eval
  obtain ⟨f, hf⟩ := Option.isSome_iff_exists.1 hstore
  have hadded : addNewBlock Devnet.env Devnet.now 3 Devnet.genesis (Node.initial ∅) =
      .ok .added Devnet.first := eq_added hg
  have hm := Reachable.genesis hadded
  have hexact := (PushesTo.refl.push (addNewBlock_initial hadded)).exactIndexes hfits
  have hn := Devnet.reachable_node ∅ _ hrun
  generalize Devnet.node ∅ Devnet.oneBlock = n at hn hrebuild hpre
  exact ⟨f, hm, hf, (load_gives_true_indexes_iff_usable hn hm hexact hf
    ⟨rfl, .refl _, .refl _, .refl _⟩ (fresh_clearAllCacheData n.chain) rfl (eq_okTrue hrebuild)
    .complete).1 (.inr hpre)⟩

/-- A file from before a reorganisation that is lower than the chain now: it is
read, and its blocks stay in the index. -/
theorem load_of_stale_cache_wrong :
    ∃ f, storeBlockchain (Devnet.node ∅ Devnet.oneBlock).chain = some f ∧
      Reachable Devnet.env (Devnet.node ∅ Devnet.oneBlock) ∧
      Reachable Devnet.env (Devnet.node ∅ Devnet.reorganised) ∧
      isOkTrue (rebuildcache Devnet.env 0
        (Devnet.node ∅ Devnet.reorganised).chain.clearAllCacheData) = true ∧
      ¬ LoadsTrueIndexes Devnet.env f .complete
        (Devnet.node ∅ Devnet.reorganised).chain.clearAllCacheData := by
  have eval : (Devnet.run ∅ Devnet.oneBlock).isSome = true ∧
      (Devnet.run ∅ Devnet.reorganised).isSome = true ∧
      isOkTrue (rebuildcache Devnet.env 0
        (Devnet.node ∅ Devnet.reorganised).chain.clearAllCacheData) = true ∧
      ∃ f ∈ storeBlockchain (Devnet.node ∅ Devnet.oneBlock).chain,
        (stateOf (rebuildcache Devnet.env 0
          (Devnet.node ∅ Devnet.reorganised).chain.clearAllCacheData)).mBlocksIndex ≠
        (stateOf (initIndexes Devnet.env f .complete
          (Devnet.node ∅ Devnet.reorganised).chain.clearAllCacheData)).mBlocksIndex := by
    decide +kernel
  obtain ⟨hrun, hrun', hrebuild, f, hf, hne⟩ := eval
  refine ⟨f, Option.mem_def.1 hf, Devnet.reachable_node ∅ _ hrun, Devnet.reachable_node ∅ _ hrun',
    hrebuild, ?_⟩
  generalize (Devnet.node ∅ Devnet.reorganised).chain = s at hne
  rintro ⟨s₀, s', h₀, hs, hsame⟩
  rw [fresh_clearAllCacheData] at h₀
  rw [h₀, hs] at hne
  exact hne hsame.blocksIndex.symm

end DarknetSpace
