import DarknetSpace.Core.CacheOver

/-!
# Cache files that can be used

The cache file is written whole and read container by container, so a file that was cut
off gives the first of them and a part of the next. It also names the block it was
written at; `init` throws it away when the chain on disk has not got that block at that
height. `Usable` says which files and cuts do no harm: the file is set aside, or it
belongs to a beginning of the chain at hand and was read to its end, or to a point
before its first output.

`Written` is what a file has that a node wrote over true indexes, in whatever order its
maps were iterated. The cases of `loads_of_usable` are the cuts, and each comes down to
a rebuild over what was read: over nothing, over a part (`loads_part`), or over the
indexes of a beginning of the chain (`loads_complete`).
-/

namespace DarknetSpace

open StateExn

/-! ## Which files can be used -/

/-- The indexes are those of the blocks. -/
def ExactIndexes (env : Env) (s : Storage) : Prop :=
  ∃ s₀, rebuildcache env 0 s.clearAllCacheData = .ok true s₀ ∧ SameIndexes s₀ s

theorem PushesTo.exactIndexes {env : Env} {cp : Checkpoints} {n : Node}
    (h : PushesTo env (Node.initial cp) n) (hfits : ∀ e ∈ n.chain.mBlocks, FitsRebuild e) :
    ExactIndexes env n.chain := by
  obtain ⟨s, hs, hsame⟩ := h.rebuildcache (Sound.initial env _ cp) hfits
    (d := n.chain.clearAllCacheData) rfl (sameIndexes_initial cp n.chain)
  exact ⟨s, hs, hsame.symm⟩

/-- Loading the file gives the indexes a rebuild from nothing gives. -/
def LoadsTrueIndexes (env : Env) (f : CacheFile) (cut : Cut) (d : Storage) : Prop :=
  ∃ s₀ s, rebuildcache env 0 d.clearAllCacheData = .ok true s₀ ∧
    initIndexes env f cut d = .ok true s ∧ SameIndexes s₀ s

/-- The blocks the file was written for are the first ones on disk, up to flags
and signatures. -/
def StoredPrefix (st : Storage) (bs : List BlockEntry) : Prop :=
  st.mBlocks.map BlockEntry.content <+: bs.map BlockEntry.content

/-- The file was written for a chain that is as high or higher and ends in
another block; `init` sets it aside. -/
def SetAside (env : Env) (st : Storage) (bs : List BlockEntry) : Prop :=
  bs.length < st.mBlocks.length ∨ st.mBlocks.length = bs.length ∧
    indexTailId (blockIds env st.mBlocks) ≠ indexTailId (blockIds env bs)

/-- The file, written by `st` and ending at the cut, can be used for `bs`. -/
def Usable (env : Env) (st : Storage) (bs : List BlockEntry) (f : CacheFile) : Cut → Prop
  | .header => True
  | .index k => f.blocksIndex.take k <+: blockIds env bs
  | .transactions _ | .spentKeys _ | .complete => SetAside env st bs ∨ StoredPrefix st bs
  | .outputs k => SetAside env st bs ∨ StoredPrefix st bs ∧ f.outputs.take k = []
  | .aliases _ | .scratchpad _ | .others => SetAside env st bs

/-! ## Reading a file -/

/-- What the file says of the storage that wrote it. -/
structure Written (env : Env) (st : Storage) (f : CacheFile) : Prop where
  sync : st.mBlocksIndex = blockIds env st.mBlocks
  index : f.blocksIndex = blockIds env st.mBlocks
  hash : f.storedLastBlockHash = indexTailId (blockIds env st.mBlocks)
  height : f.nHeight + 1 = st.mBlocks.length
  transactions : f.transactions.Perm st.mTransactions.toList
  spentKeys : f.spentKeys.Perm st.mSpentKeys.toList
  outputs : f.outputs.Perm st.mOutputs.toList
  aliases : f.aliases = st.mAliases.toList
  scratchpad : f.scratchpad = st.mScratchpad
  count : f.totalCount = st.totalCount

theorem written_of_store {env : Env} {st : Storage} {g f : CacheFile}
    (h : storeBlockchain st = some g) (hre : g.Reordered f)
    (hi : st.mBlocksIndex = blockIds env st.mBlocks) (hw : WellNumbered env st.mBlocks) :
    Written env st f := by
  unfold storeBlockchain at h
  obtain ⟨last, hlast, h⟩ := Option.bind_eq_some_iff.1 h
  simp only at h
  split at h
  · cases h
  · split at h
    · cases h
    · have hne : st.mBlocks ≠ [] := by
        rintro h0
        rw [h0] at hlast
        cases hlast
      have hheight : last.height = st.mBlocks.length - 1 := by
        refine hw.height _ _ ?_
        rw [← List.getLast?_eq_getElem?]
        exact hlast
      have hpos := List.length_pos_iff.2 hne
      have hf := hre.rest
      rw [← Option.some.inj h] at hf
      have ht := hre.transactions
      have hk := hre.spentKeys
      have ho := hre.outputs
      rw [← Option.some.inj h] at ht hk ho
      have field {α : Type} (φ : CacheFile → α) := congrArg φ hf
      exact
        { sync := hi
          index := (field CacheFile.blocksIndex).trans hi
          hash := (field CacheFile.storedLastBlockHash).trans (congrArg indexTailId hi)
          height := by
            have : f.nHeight = last.height := field CacheFile.nHeight
            omega
          transactions := ht
          spentKeys := hk
          outputs := ho
          aliases := field CacheFile.aliases
          scratchpad := field CacheFile.scratchpad
          count := field CacheFile.totalCount }

/-- Where the id of the last block stands in a list of ids. -/
theorem indexHeight_tailId {ids : List Hash} (hn : ids.Nodup) (hne : ids ≠ []) :
    indexHeight ids (indexTailId ids) = some (ids.length - 1) := by
  have hpos := List.length_pos_iff.2 hne
  have hlast : ids.getLast? = some ids[ids.length - 1] := by
    rw [List.getLast?_eq_getElem?, List.getElem?_eq_getElem (by omega)]
  unfold indexHeight indexTailId
  rw [hlast, Option.getD_some, List.idxOf?_eq_some_iff]
  refine ⟨by omega, rfl, fun j hj heq => ?_⟩
  have := (List.Nodup.getElem_inj_iff hn).1 heq
  omega

theorem indexHeight_tailId_take {ids : List Hash} (hn : ids.Nodup) {k : Nat} (hk : k < ids.length) :
    indexHeight (ids.take k) (indexTailId ids) = none := by
  have hlast : ids.getLast? = some ids[ids.length - 1] := by
    rw [List.getLast?_eq_getElem?, List.getElem?_eq_getElem (by omega)]
  unfold indexHeight indexTailId
  rw [hlast, Option.getD_some, List.idxOf?_eq_none_iff]
  intro hm
  obtain ⟨j, hj, heq⟩ := List.getElem_of_mem hm
  rw [List.length_take] at hj
  rw [List.getElem_take] at heq
  have := (List.Nodup.getElem_inj_iff hn).1 heq
  omega

section

variable {env : Env} {st d : Storage} {f : CacheFile} {last : BlockEntry}

/-- A storage at the start of `init`, over a chain with last block `last`. -/
structure Starts (env : Env) (d : Storage) (last : BlockEntry) : Prop where
  fresh : Fresh d
  numbered : WellNumbered env d.mBlocks
  last : d.mBlocks.getLast? = some last

theorem Starts.height (h : Starts env d last) : last.height + 1 = d.mBlocks.length := by
  have hlast := h.last
  rw [List.getLast?_eq_getElem?] at hlast
  have := h.numbered.height _ _ hlast
  have := (List.getElem?_eq_some_iff.1 hlast).1
  omega

theorem Starts.tailId (h : Starts env d last) :
    indexTailId (blockIds env d.mBlocks) = getBlockHash env last.bl := by
  unfold indexTailId blockIds
  rw [List.getLast?_map, h.last]
  rfl

theorem length_blockIds (env : Env) (bs : List BlockEntry) : (blockIds env bs).length = bs.length := by
  rw [blockIds, List.length_map]

/-- A cut behind the block index. -/
def Cut.PastIndex : Cut → Prop
  | .header | .index _ => False
  | _ => True

theorem load_pastIndex {cut : Cut} (hc : cut.PastIndex) (hash : Hash) (h : Nat) (s : Storage) :
    BlockCacheSerializer.load f cut hash h s =
      if indexHeight (f.blocksIndex.take (f.blocksIndex.length - (f.nHeight - h)))
          f.storedLastBlockHash ≠ some (min f.nHeight h) then
        (⟨false, nullHash, 2 ^ 64 - 1⟩, { s with mBlocksIndex := [] })
      else if f.storedLastBlockHash ≠ hash ∧ s.mBlocks.length ≤
          (f.blocksIndex.take (f.blocksIndex.length - (f.nHeight - h))).length then
        (⟨false, nullHash, min f.nHeight h⟩, { s with mBlocksIndex := [] })
      else
        (⟨(BlockCacheSerializer.loadContainers f cut { s with
            mBlocksIndex := f.blocksIndex.take (f.blocksIndex.length - (f.nHeight - h)) }).1,
          f.storedLastBlockHash, min f.nHeight h⟩,
        (BlockCacheSerializer.loadContainers f cut { s with
            mBlocksIndex := f.blocksIndex.take (f.blocksIndex.length - (f.nHeight - h)) }).2) := by
  cases cut <;> first | exact hc.elim | rfl

/-- A file for a chain that is as high and ends in another block. -/
theorem load_setAside (hf : Written env st f) (hst : WellNumbered env st.mBlocks)
    (hd : Starts env d last) {cut : Cut} (hc : cut.PastIndex) (hset : SetAside env st d.mBlocks) :
    ∃ loader, BlockCacheSerializer.load f cut (getBlockHash env last.bl) last.height d =
      (loader, d) ∧ loader.mLoaded = false := by
  have hclear : ({ d with mBlocksIndex := [] } : Storage) = d := by
    have := congrArg Storage.mBlocksIndex hd.fresh
    have hi : d.mBlocksIndex = [] := this.symm
    rw [← hi]
  have hlen := length_blockIds env st.mBlocks
  have hheight := hd.height
  have hfh := hf.height
  rw [load_pastIndex hc, hclear, hf.index, hf.hash, hlen]
  rcases hset with hlt | ⟨heq, hne⟩
  · rw [if_pos]
    · exact ⟨_, rfl, rfl⟩
    · rw [indexHeight_tailId_take hst.nodup (by rw [hlen]; omega)]
      exact (Option.some_ne_none _).symm
  · split
    · exact ⟨_, rfl, rfl⟩
    · rw [if_pos]
      · exact ⟨_, rfl, rfl⟩
      · refine ⟨hd.tailId ▸ hne, ?_⟩
        rw [List.length_take, hlen]
        omega

/-- Any other file is read on. -/
theorem load_used (hf : Written env st f) (hst : WellNumbered env st.mBlocks)
    (hd : Starts env d last) (cut : Cut) (hc : cut.PastIndex) (hset : ¬ SetAside env st d.mBlocks) :
    BlockCacheSerializer.load f cut (getBlockHash env last.bl) last.height d =
      (⟨(BlockCacheSerializer.loadContainers f cut { d with mBlocksIndex := f.blocksIndex }).1,
        f.storedLastBlockHash, f.nHeight⟩,
      (BlockCacheSerializer.loadContainers f cut { d with mBlocksIndex := f.blocksIndex }).2) := by
  have hlen := length_blockIds env st.mBlocks
  have hheight := hd.height
  have hfh := hf.height
  unfold SetAside at hset
  rw [not_or] at hset
  have hle : f.nHeight ≤ last.height := by omega
  have hsub : f.nHeight - last.height = 0 := by omega
  have hmin : min f.nHeight last.height = f.nHeight := min_eq_left hle
  have hne : blockIds env st.mBlocks ≠ [] := by
    intro h0
    rw [h0, List.length_nil] at hlen
    omega
  rw [load_pastIndex hc, hsub, hmin, Nat.sub_zero, List.take_length, if_neg, if_neg]
  · rw [hf.hash, hf.index, hlen]
    rintro ⟨hdiff, hge⟩
    exact hset.2 ⟨by omega, by rw [hd.tailId]; exact hdiff⟩
  · rw [hf.index, hf.hash, indexHeight_tailId hst.nodup hne, hlen]
    intro h
    exact h (congrArg some (by omega))

/-- Without a usable file everything is rebuilt. -/
theorem initIndexes_of_not_loaded {cut : Cut} {e : Storage} {loader : BlockCacheSerializer.Loader}
    (hlast : d.mBlocks.getLast? = some last)
    (h : BlockCacheSerializer.load f cut (getBlockHash env last.bl) last.height d = (loader, e))
    (hl : loader.mLoaded = false) : initIndexes env f cut d = rebuildcache env 0 e := by
  unfold initIndexes
  rw [bind_of_ok (get_apply d)]
  simp only [hlast]
  rw [h, bind_of_ok (set_apply d e)]
  simp only [hl]
  rfl

theorem rebuildcache_eq_ok {k : Nat} {s s' : Storage} :
    rebuildcache env k s = .ok true s' ↔
      rebuildBlocks env k (s.mBlocks.drop k) s = .ok ⟨⟩ s' := by
  unfold rebuildcache
  rw [bind_of_ok (get_apply s)]
  constructor
  · intro h
    obtain ⟨_, s₁, h₁, h⟩ := bind_eq_ok.1 h
    cases h
    exact h₁
  · intro h
    exact (bind_of_ok h).trans rfl

/-- The rebuild of the chain on disk passes through the indexes the file was
written over. -/
theorem StoredPrefix.split {s₀ : Storage} (h : StoredPrefix st d.mBlocks)
    (hexact : ExactIndexes env st) (hd : Fresh d)
    (h₀ : rebuildBlocks env 0 d.mBlocks d = .ok ⟨⟩ s₀) :
    ∃ sk, SameIndexes st sk ∧
      rebuildBlocks env 0 (d.mBlocks.take st.mBlocks.length) d = .ok ⟨⟩ sk ∧
      rebuildBlocks env st.mBlocks.length (d.mBlocks.drop st.mBlocks.length) sk = .ok ⟨⟩ s₀ := by
  obtain ⟨s, hs, hsame⟩ := hexact
  have hs : rebuildBlocks env 0 st.mBlocks st.clearAllCacheData = .ok ⟨⟩ s :=
    rebuildcache_eq_ok.1 hs
  have hempty : SameIndexes st.clearAllCacheData d := by
    rw [← hd]
    exact ⟨⟨rfl, rfl, rfl, rfl⟩, rfl, rfl⟩
  obtain ⟨sk, hsk, hsk'⟩ := hempty.rebuildBlocks hs
  have hlen : st.mBlocks.length ≤ d.mBlocks.length := by
    have := h.length_le
    rwa [List.length_map, List.length_map] at this
  have hcontent : st.mBlocks.map BlockEntry.content =
      (d.mBlocks.take st.mBlocks.length).map BlockEntry.content := by
    rw [List.map_take, ← List.length_map (f := BlockEntry.content)]
    exact (List.prefix_iff_eq_take.1 h)
  rw [rebuildBlocks_congr env 0 hcontent] at hsk
  rw [← List.take_append_drop st.mBlocks.length d.mBlocks, rebuildBlocks_append, List.length_take,
    min_eq_left hlen, Nat.zero_add] at h₀
  obtain ⟨_, s₁, h₁, h₂⟩ := bind_eq_ok.1 h₀
  cases hsk.symm.trans h₁
  exact ⟨sk, hsame.symm.trans hsk', hsk, h₂⟩

/-- What a file that was not set aside leaves when it ends before its first
output. -/
theorem loads_over_part {s₀ e : Storage} {p : List Hash} {S : Map Hash TransactionIndex}
    {K : Std.ExtTreeSet KeyImage compare} {cut : Cut} {loader : BlockCacheSerializer.Loader}
    (hd : Starts env d last) (h₀ : rebuildBlocks env 0 d.mBlocks d = .ok ⟨⟩ s₀)
    (hload : BlockCacheSerializer.load f cut (getBlockHash env last.bl) last.height d = (loader, e))
    (hl : loader.mLoaded = false) (hb : e.mBlocks = d.mBlocks) (hover : Over p S K ∅ d e)
    (hp : p <+: blockIds env d.mBlocks)
    (hS : ∀ (id : Hash) i, S[id]? = some i → s₀.mTransactions[id]? = some i)
    (hK : ∀ k ∈ K, k ∈ s₀.mSpentKeys) : LoadsTrueIndexes env f cut d := by
  have hempty : d.mBlocksIndex = [] := by
    have := congrArg Storage.mBlocksIndex hd.fresh
    exact this.symm
  have hindex : s₀.mBlocksIndex = blockIds env d.mBlocks := by
    have := rebuildBlocks_index h₀ (by rw [hempty]; exact hd.numbered.nodup)
    rwa [hempty] at this
  obtain ⟨e', he', hsame⟩ := hover.rebuild_true h₀ (hindex ▸ hd.numbered.nodup) (hindex ▸ hp) hS hK
  refine ⟨s₀, e', ?_, ?_, hsame⟩
  · rw [hd.fresh]
    exact rebuildcache_eq_ok.2 h₀
  · rw [initIndexes_of_not_loaded hd.last hload hl]
    refine rebuildcache_eq_ok.2 ?_
    rw [List.drop_zero, hb]
    exact he'

theorem StoredPrefix.ids {bs : List BlockEntry} (h : StoredPrefix st bs) :
    blockIds env st.mBlocks <+: blockIds env bs := by
  have := h.map fun c => getBlockHash env c.1
  rwa [List.map_map, List.map_map] at this

/-- A storage that the file's index, transactions and key images were read
into. -/
theorem over_part (hd : Fresh d) (p : List Hash) (S : Map Hash TransactionIndex)
    (K : Std.ExtTreeSet KeyImage compare) :
    Over p S K ∅ d { d with mBlocksIndex := p, mTransactions := S, mSpentKeys := K } := by
  have hi : d.mBlocksIndex = [] := by have := congrArg Storage.mBlocksIndex hd; exact this.symm
  have ht : d.mTransactions = ∅ := by have := congrArg Storage.mTransactions hd; exact this.symm
  have hk : d.mSpentKeys = ∅ := by have := congrArg Storage.mSpentKeys hd; exact this.symm
  refine ⟨?_, fun id => ?_, fun k => ?_, fun a => ?_, fun a => ?_, rfl, rfl⟩
  · rw [hi]
    simp
  · rw [ht]
    simp
  · rw [hk]
    simp
  · simp
  · simp

/-- Reading part of the file of an earlier state of the chain. -/
theorem loads_part {s₀ : Storage} {cut : Cut} (hf : Written env st f) (hexact : ExactIndexes env st)
    (hd : Starts env d last) (h₀ : rebuildBlocks env 0 d.mBlocks d = .ok ⟨⟩ s₀)
    (hpre : StoredPrefix st d.mBlocks) {S : Map Hash TransactionIndex}
    {K : Std.ExtTreeSet KeyImage compare}
    (hS : ∀ (id : Hash) i, S[id]? = some i → st.mTransactions[id]? = some i)
    (hK : ∀ k ∈ K, k ∈ st.mSpentKeys)
    (hload : BlockCacheSerializer.load f cut (getBlockHash env last.bl) last.height d =
      (⟨false, f.storedLastBlockHash, f.nHeight⟩,
        { d with mBlocksIndex := f.blocksIndex, mTransactions := S, mSpentKeys := K })) :
    LoadsTrueIndexes env f cut d := by
  obtain ⟨sk, hsk, -, hrest⟩ := hpre.split hexact hd.fresh h₀
  have hholds := holds_rebuildBlocks hrest
  refine loads_over_part hd h₀ hload rfl rfl (over_part hd.fresh _ S K)
    (hf.index ▸ hpre.ids) (fun id i h => ?_) fun k h => ?_
  · exact hholds.transactions id i (by rw [hsk.transactions]; exact hS id i h)
  · exact hholds.spentKeys k (by rw [hsk.spentKeys]; exact hK k h)

/-- A file that is read to its end gives back the indexes it was written
over. -/
theorem loadContainers_complete (hf : Written env st f) :
    ∃ e, BlockCacheSerializer.loadContainers f .complete { d with mBlocksIndex := f.blocksIndex } =
      (true, e) ∧ SameIndexes st e ∧ e.mBlocks = d.mBlocks := by
  have ht : (Std.ExtTreeMap.ofList f.transactions : Map Hash TransactionIndex) = st.mTransactions :=
    FinMap.ofList_of_perm hf.transactions
  have hk : (Std.ExtTreeSet.ofList f.spentKeys : Std.ExtTreeSet KeyImage compare) = st.mSpentKeys :=
    FinMap.set_ofList_of_perm hf.spentKeys
  have ho : (Std.ExtTreeMap.ofList f.outputs : Map UInt64 AmountOuts) = st.mOutputs :=
    FinMap.ofList_of_perm hf.outputs
  have ha : (Std.ExtTreeMap.ofList f.aliases : Map Blob (List AliasInfoBase)) = st.mAliases :=
    FinMap.ofList_of_perm (hf.aliases ▸ List.Perm.refl _)
  have hcount : st.totalCount = f.blocksIndex.length + st.mTransactions.size + st.mSpentKeys.size +
      st.mOutputs.size + st.mAliases.size + st.mScratchpad.length := by
    rw [Storage.totalCount, hf.sync, hf.index]
  unfold BlockCacheSerializer.loadContainers
  simp only [ht, hk, ho, ha, hf.scratchpad]
  rw [if_neg]
  · exact ⟨_, rfl, ⟨⟨rfl, rfl, rfl, rfl⟩, hf.index.trans hf.sync.symm, rfl⟩, rfl⟩
  · rw [hf.count, hcount, not_not]
    rfl

/-- Reading the whole file of an earlier state of the chain. -/
theorem loads_complete {s₀ : Storage} (hf : Written env st f) (hst : WellNumbered env st.mBlocks)
    (hexact : ExactIndexes env st) (hd : Starts env d last)
    (h₀ : rebuildBlocks env 0 d.mBlocks d = .ok ⟨⟩ s₀) (hset : ¬ SetAside env st d.mBlocks)
    (hpre : StoredPrefix st d.mBlocks) : LoadsTrueIndexes env f .complete d := by
  obtain ⟨sk, hsk, -, hrest⟩ := hpre.split hexact hd.fresh h₀
  have hload := load_used hf hst hd .complete trivial hset
  obtain ⟨e, he, hsame, hblocks⟩ := loadContainers_complete (d := d) hf
  rw [he] at hload
  have hheight := hd.height
  have hfh := hf.height
  have hlen : st.mBlocks.length ≤ d.mBlocks.length := by
    have := List.IsPrefix.length_le hpre
    rwa [List.length_map, List.length_map] at this
  -- with the file read whole, the only question is which blocks to rebuild
  have hinit : initIndexes env f .complete d =
      if getBlockHash env last.bl ≠ f.storedLastBlockHash then
        if f.nHeight < e.mBlocks.length - 1 then rebuildcache env (f.nHeight + 1) e
        else rebuildcache env 0 e
      else .ok true e := by
    unfold initIndexes
    rw [bind_of_ok (get_apply d)]
    simp only [hd.last]
    rw [hload, bind_of_ok (set_apply d e)]
    simp only [not_true_eq_false, if_false]
    split
    · split <;> rfl
    · rfl
  have hcur : rebuildcache env 0 d.clearAllCacheData = .ok true s₀ := by
    rw [hd.fresh]
    exact rebuildcache_eq_ok.2 h₀
  by_cases hall : st.mBlocks.length = d.mBlocks.length
  · -- the file is of this very chain
    have htail : f.storedLastBlockHash = getBlockHash env last.bl := by
      have hids : blockIds env st.mBlocks = blockIds env d.mBlocks :=
        hpre.ids.eq_of_length (by rw [length_blockIds, length_blockIds, hall])
      rw [hf.hash, hids, hd.tailId]
    rw [if_neg (not_not.2 htail.symm)] at hinit
    rw [hall, List.drop_length] at hrest
    cases hrest
    exact ⟨s₀, e, hcur, hinit, hsk.symm.trans hsame⟩
  · -- the file is of a lower chain, and the rest is rebuilt
    have htail : getBlockHash env last.bl ≠ f.storedLastBlockHash := by
      intro heq
      have hids : blockIds env st.mBlocks <+: blockIds env d.mBlocks := hpre.ids
      have hlt : (blockIds env st.mBlocks).length < (blockIds env d.mBlocks).length := by
        rw [length_blockIds, length_blockIds]
        omega
      have hst : blockIds env st.mBlocks =
          (blockIds env d.mBlocks).take (blockIds env st.mBlocks).length :=
        List.prefix_iff_eq_take.1 hids
      have hnone := indexHeight_tailId_take hd.numbered.nodup hlt
      rw [← hst, hd.tailId, heq, hf.hash] at hnone
      have hne : blockIds env st.mBlocks ≠ [] := by
        intro h0
        have := congrArg List.length h0
        rw [length_blockIds, List.length_nil] at this
        omega
      rw [indexHeight_tailId (hst ▸ hd.numbered.nodup.sublist (List.take_sublist _ _)) hne] at hnone
      cases hnone
    rw [if_pos htail, if_pos (by rw [hblocks]; omega), hfh] at hinit
    obtain ⟨e', he', hsame'⟩ := (hsk.symm.trans hsame).rebuildBlocks hrest
    refine ⟨s₀, e', hcur, hinit.trans (rebuildcache_eq_ok.2 ?_), hsame'⟩
    rw [hblocks]
    exact he'

/-- A file that can be used gives the true indexes. -/
theorem loads_of_usable {s₀ : Storage} (hf : Written env st f) (hst : WellNumbered env st.mBlocks)
    (hexact : ExactIndexes env st) (hd : Starts env d last)
    (h₀ : rebuildBlocks env 0 d.mBlocks d = .ok ⟨⟩ s₀) (cut : Cut)
    (hu : Usable env st d.mBlocks f cut) : LoadsTrueIndexes env f cut d := by
  have hnothing : Over [] ∅ ∅ ∅ d d := (SameIndexes.refl d).over
  -- a file that is set aside costs nothing but the work: everything is rebuilt
  have setAside : ∀ cut : Cut, cut.PastIndex → SetAside env st d.mBlocks →
      LoadsTrueIndexes env f cut d := by
    intro cut hc hset
    obtain ⟨loader, hload, hl⟩ := load_setAside hf hst hd hc hset
    exact loads_over_part hd h₀ hload hl rfl hnothing List.nil_prefix (by simp) (by simp)
  have all : ∀ (id : Hash) i, (Std.ExtTreeMap.ofList f.transactions : Map Hash TransactionIndex)[id]? =
      some i → st.mTransactions[id]? = some i := by
    intro id i h
    rwa [FinMap.ofList_of_perm hf.transactions] at h
  -- a chain that has just been opened has no indexes
  have hempty : d.mTransactions = ∅ ∧ d.mSpentKeys = ∅ ∧ d.mOutputs = ∅ := by
    have ht := congrArg Storage.mTransactions hd.fresh
    have hk := congrArg Storage.mSpentKeys hd.fresh
    have ho := congrArg Storage.mOutputs hd.fresh
    exact ⟨ht.symm, hk.symm, ho.symm⟩
  cases cut with
  | header => exact loads_over_part hd h₀ rfl rfl rfl hnothing List.nil_prefix (by simp) (by simp)
  | index k =>
    have hover := over_part hd.fresh (f.blocksIndex.take k) ∅ ∅
    rw [← hempty.1, ← hempty.2.1] at hover
    exact loads_over_part hd h₀ rfl rfl rfl hover hu (by simp [hempty.1]) (by simp [hempty.2.1])
  | transactions k =>
    by_cases hset : SetAside env st d.mBlocks
    · exact setAside _ trivial hset
    · refine loads_part hf hexact hd h₀ (hu.resolve_left hset)
        (S := Std.ExtTreeMap.ofList (f.transactions.take k)) (K := ∅)
        (fun id i h => FinMap.getElem?_ofList_take hf.transactions h) (by simp) ?_
      rw [load_used hf hst hd (.transactions k) trivial hset, ← hempty.2.1]
      rfl
  | spentKeys k =>
    by_cases hset : SetAside env st d.mBlocks
    · exact setAside _ trivial hset
    · refine loads_part hf hexact hd h₀ (hu.resolve_left hset)
        (K := Std.ExtTreeSet.ofList (f.spentKeys.take k)) all
        (fun k h => FinMap.mem_of_mem_ofList_take hf.spentKeys h) ?_
      rw [load_used hf hst hd (.spentKeys k) trivial hset]
      rfl
  | outputs k =>
    by_cases hset : SetAside env st d.mBlocks
    · exact setAside _ trivial hset
    -- outputs are appended and not overwritten, so none may have been read
    · obtain ⟨hpre, hnone⟩ := hu.resolve_left hset
      refine loads_part hf hexact hd h₀ hpre (K := Std.ExtTreeSet.ofList f.spentKeys) all
        (fun k h => by rwa [FinMap.set_ofList_of_perm hf.spentKeys] at h) ?_
      rw [load_used hf hst hd (.outputs k) trivial hset]
      unfold BlockCacheSerializer.loadContainers
      simp only [hnone, Std.ExtTreeMap.ofList_nil, ← hempty.2.2]
  | complete =>
    by_cases hset : SetAside env st d.mBlocks
    · exact setAside _ trivial hset
    · exact loads_complete hf hst hexact hd h₀ hset (hu.resolve_left hset)
  | aliases k => exact setAside _ trivial hu
  | scratchpad read => exact setAside _ trivial hu
  | others => exact setAside _ trivial hu

end

end DarknetSpace
