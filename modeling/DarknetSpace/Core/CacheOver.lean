import DarknetSpace.Chain.Cache
import DarknetSpace.Core.Rebuilt
import DarknetSpace.Core.Links

/-!
# A rebuild over containers that are not empty

`rebuildcache` pushes the blocks of the chain into the indexes, and these need not be
empty: a cache file that breaks off leaves in them what was read. The block index,
`m_transactions` and `m_spent_keys` take what they have already as given, so true
entries that were left in them do no harm; `m_outputs` is appended to, and whatever was
left in it comes before everything else.

`Over` says how two storages lie to each other, one of them with entries left in it,
and is kept by each step of a rebuild up to the whole loop (`Over.rebuildBlocks`). A
rebuild only adds (`Holds`), so what was left and is true is found again, and
`Over.rebuild_true` ends where a rebuild from nothing would.
-/

namespace DarknetSpace

open StateExn

/-! ## Rebuilding over what was left -/

/-- `e` is `d` with the blocks `p`, the transactions `S`, the key images `K`
and the outputs `O` left in it from before. -/
structure Over (p : List Hash) (S : Map Hash TransactionIndex)
    (K : Std.ExtTreeSet KeyImage compare) (O : Map UInt64 AmountOuts) (d e : Storage) : Prop where
  index : e.mBlocksIndex = p ++ d.mBlocksIndex.filter (· ∉ p)
  transactions : ∀ id : Hash, e.mTransactions[id]? = S[id]?.or d.mTransactions[id]?
  spentKeys : ∀ k, k ∈ e.mSpentKeys ↔ k ∈ K ∨ k ∈ d.mSpentKeys
  outputs : ∀ a, e.mOutputs.getD a [] = O.getD a [] ++ d.mOutputs.getD a []
  amounts : ∀ a, a ∈ e.mOutputs ↔ a ∈ O ∨ a ∈ d.mOutputs
  aliases : e.mAliases = d.mAliases
  scratchpad : e.mScratchpad = d.mScratchpad

section

variable {p : List Hash} {S : Map Hash TransactionIndex} {K : Std.ExtTreeSet KeyImage compare}
  {O : Map UInt64 AmountOuts} {d e : Storage}

/-- Pushing an id over `p`. -/
theorem Over.indexPush (h : Over p S K O d e) (id : Hash) :
    (indexPush e.mBlocksIndex id).2 = p ++ (indexPush d.mBlocksIndex id).2.filter (· ∉ p) := by
  unfold DarknetSpace.indexPush
  rw [h.index]
  by_cases hd : id ∈ d.mBlocksIndex
  · rw [if_pos hd, if_pos]
    rw [List.mem_append, List.mem_filter]
    by_cases hp : id ∈ p
    · exact .inl hp
    · exact .inr ⟨hd, by simpa using hp⟩
  · rw [if_neg hd, List.filter_append]
    by_cases hp : id ∈ p
    · rw [if_pos (List.mem_append_left _ hp)]
      simp [hp]
    · rw [if_neg]
      · simp [hp]
      · rw [List.mem_append, List.mem_filter]
        rintro (h | ⟨h, -⟩)
        · exact hp h
        · exact hd h

theorem Over.pushOutputs_getD (idx : TransactionIndex) (i : Nat) (vout : List TxOut)
    {o o' : Map UInt64 AmountOuts} (h : ∀ a, o'.getD a [] = O.getD a [] ++ o.getD a [])
    (hm : ∀ a, a ∈ o' ↔ a ∈ O ∨ a ∈ o) :
    (∀ a, (pushOutputs idx i vout o').1.getD a [] =
      O.getD a [] ++ (pushOutputs idx i vout o).1.getD a []) ∧
    ∀ a, a ∈ (pushOutputs idx i vout o').1 ↔ a ∈ O ∨ a ∈ (pushOutputs idx i vout o).1 := by
  induction vout generalizing i o o' with
  | nil => exact ⟨h, hm⟩
  | cons v rest ih =>
    refine ih _ (fun a => ?_) fun a => ?_
    · rw [getD_pushOutput, getD_pushOutput, h, List.append_assoc]
    · unfold pushOutput
      rw [Std.ExtTreeMap.mem_insert, Std.ExtTreeMap.mem_insert, hm]
      tauto

/-- The rebuild of one transaction over what was left. -/
theorem Over.rebuildTransaction {env : Env} {b t : Nat} {tx : Transaction} {r : Bool} {d' : Storage}
    (h : Over p S K O d e) (hd : rebuildTransaction env b t tx d = .ok r d') :
    ∃ e', rebuildTransaction env b t tx e = .ok r e' ∧ Over p S K O d' e' := by
  unfold DarknetSpace.rebuildTransaction at hd ⊢
  obtain ⟨x, da, hp, hd⟩ := bind_eq_ok.1 hd
  obtain ⟨ea, hea, hal, hew, hdw⟩ := processBlockchainTxExtra_congr h.aliases hp
  rw [bind_of_ok hea]
  have field {α : Type} (f : Storage → α) (s sa : Storage)
      (hs : sa.withoutAliases = s.withoutAliases) :
      f sa.withoutAliases = f s.withoutAliases := congrArg f hs
  have ha : Over p S K O da ea := by
    obtain ⟨hi, ht, hk, ho, hm, -, hpad⟩ := h
    have hdi : da.mBlocksIndex = d.mBlocksIndex := field (·.mBlocksIndex) _ _ hdw
    have hei : ea.mBlocksIndex = e.mBlocksIndex := field (·.mBlocksIndex) _ _ hew
    have hdt : da.mTransactions = d.mTransactions := field (·.mTransactions) _ _ hdw
    have het : ea.mTransactions = e.mTransactions := field (·.mTransactions) _ _ hew
    have hdk : da.mSpentKeys = d.mSpentKeys := field (·.mSpentKeys) _ _ hdw
    have hek : ea.mSpentKeys = e.mSpentKeys := field (·.mSpentKeys) _ _ hew
    have hdo : da.mOutputs = d.mOutputs := field (·.mOutputs) _ _ hdw
    have heo : ea.mOutputs = e.mOutputs := field (·.mOutputs) _ _ hew
    have hdp : da.mScratchpad = d.mScratchpad := field (·.mScratchpad) _ _ hdw
    have hep : ea.mScratchpad = e.mScratchpad := field (·.mScratchpad) _ _ hew
    constructor
    · rw [hei, hdi, hi]
    · rw [het, hdt]; exact ht
    · rw [hek, hdk]; exact hk
    · rw [heo, hdo]; exact ho
    · rw [heo, hdo]; exact hm
    · exact hal
    · rw [hep, hdp, hpad]
  cases x with
  | false =>
    cases hd
    exact ⟨ea, rfl, ha⟩
  | true =>
    rw [if_pos rfl] at hd ⊢
    split at hd
    · cases hd
    · next hlen =>
      rw [if_neg hlen, bind_of_ok (modify_apply _ ea)]
      rw [bind_of_ok (modify_apply _ da)] at hd
      cases hd
      obtain ⟨ho, hm⟩ := Over.pushOutputs_getD ⟨b, UInt16.ofNat t⟩ 0 tx.vout ha.outputs ha.amounts
      refine ⟨_, rfl, ha.index, fun id => ?_, fun k => ?_, ho, hm, ha.aliases, ha.scratchpad⟩
      · exact FinMap.getElem?_insertIfNew_or ha.transactions _ _ id
      · simp only [Std.ExtTreeSet.mem_insertMany_list, ha.spentKeys]
        tauto

theorem Over.rebuildTransactions {env : Env} {b t : Nat} {es : List TransactionEntry}
    {d' : Storage} (h : Over p S K O d e) (hd : rebuildTransactions env b t es d = .ok ⟨⟩ d') :
    ∃ e', rebuildTransactions env b t es e = .ok ⟨⟩ e' ∧ Over p S K O d' e' := by
  induction es generalizing t d e with
  | nil =>
    unfold DarknetSpace.rebuildTransactions at hd ⊢
    split at hd
    · cases hd
    · next ht =>
      cases hd
      exact ⟨e, by rw [if_neg ht]; rfl, h⟩
  | cons x rest ih =>
    unfold DarknetSpace.rebuildTransactions at hd ⊢
    split at hd
    · cases hd
    · next ht =>
      rw [if_neg ht]
      obtain ⟨r, d₁, hr, hd⟩ := bind_eq_ok.1 hd
      obtain ⟨e₁, he₁, h₁⟩ := h.rebuildTransaction hr
      rw [bind_of_ok he₁]
      cases r with
      | true => exact ih h₁ hd
      | false =>
        cases hd
        exact ⟨e₁, rfl, h₁⟩

theorem Over.rebuildBlock {env : Env} {b : Nat} {x : BlockEntry} {d' : Storage}
    (h : Over p S K O d e) (hd : rebuildBlock env b x d = .ok ⟨⟩ d') :
    ∃ e', rebuildBlock env b x e = .ok ⟨⟩ e' ∧ Over p S K O d' e' := by
  unfold DarknetSpace.rebuildBlock at hd ⊢
  rw [bind_of_ok (modify_apply _ d)] at hd
  rw [bind_of_ok (modify_apply _ e)]
  obtain ⟨_, d₁, htx, hd⟩ := bind_eq_ok.1 hd
  have h₀ : Over p S K O
      { d with mBlocksIndex := (DarknetSpace.indexPush d.mBlocksIndex (getBlockHash env x.bl)).2 }
      { e with mBlocksIndex := (DarknetSpace.indexPush e.mBlocksIndex (getBlockHash env x.bl)).2 } :=
    ⟨h.indexPush _, h.transactions, h.spentKeys, h.outputs, h.amounts, h.aliases, h.scratchpad⟩
  obtain ⟨e₁, he₁, h₁⟩ := h₀.rebuildTransactions htx
  rw [bind_of_ok he₁]
  cases hpad : pushBlockScratchpadData env x.bl d₁.mScratchpad with
  | error err =>
    rw [appendScratchpad_of_error hpad] at hd
    cases hd
  | ok pad =>
    rw [appendScratchpad_of_ok hpad] at hd
    cases hd
    refine ⟨_, appendScratchpad_of_ok (h₁.scratchpad ▸ hpad), ?_⟩
    exact ⟨h₁.index, h₁.transactions, h₁.spentKeys, h₁.outputs, h₁.amounts, h₁.aliases, rfl⟩

/-- The rebuild over what was left goes step by step with the one over
nothing. -/
theorem Over.rebuildBlocks {env : Env} {b : Nat} {bs : List BlockEntry} {d' : Storage}
    (h : Over p S K O d e) (hd : rebuildBlocks env b bs d = .ok ⟨⟩ d') :
    ∃ e', rebuildBlocks env b bs e = .ok ⟨⟩ e' ∧ Over p S K O d' e' := by
  induction bs generalizing b d e with
  | nil =>
    cases hd
    exact ⟨e, rfl, h⟩
  | cons x rest ih =>
    obtain ⟨_, d₁, hx, hd⟩ := bind_eq_ok.1 hd
    obtain ⟨e₁, he₁, h₁⟩ := h.rebuildBlock hx
    obtain ⟨e', he', h'⟩ := ih h₁ hd
    exact ⟨e', (bind_of_ok he₁).trans he', h'⟩

/-- Over nothing that was left, the indexes are the same. -/
theorem Over.sameIndexes (h : Over [] ∅ ∅ ∅ d e) : SameIndexes d e := by
  refine ⟨⟨?_, ?_, ?_, h.aliases⟩, ?_, h.scratchpad⟩
  · apply Std.ExtTreeMap.ext_getElem?
    intro id
    rw [h.transactions]
    simp
  · apply Std.ExtTreeSet.ext_mem
    intro k
    rw [h.spentKeys]
    simp
  · refine FinMap.ext_getD [] (fun a => ?_) fun a => ?_
    · rw [h.amounts]
      simp
    · rw [h.outputs]
      simp
  · rw [h.index]
    simp

theorem SameIndexes.over (h : SameIndexes d e) : Over [] ∅ ∅ ∅ d e := by
  refine ⟨?_, fun id => ?_, fun k => ?_, fun a => ?_, fun a => ?_, h.aliases, h.scratchpad⟩
  · rw [h.blocksIndex]
    simp
  · rw [h.transactions]
    simp
  · rw [h.spentKeys]
    simp
  · rw [h.outputs]
    simp
  · rw [h.outputs]
    simp

end

/-- A rebuild over the same indexes gives the same indexes. -/
theorem SameIndexes.rebuildBlocks {env : Env} {b : Nat} {bs : List BlockEntry} {d d' e : Storage}
    (h : SameIndexes d e) (hd : DarknetSpace.rebuildBlocks env b bs d = .ok ⟨⟩ d') :
    ∃ e', DarknetSpace.rebuildBlocks env b bs e = .ok ⟨⟩ e' ∧ SameIndexes d' e' := by
  obtain ⟨e', he', h'⟩ := h.over.rebuildBlocks hd
  exact ⟨e', he', h'.sameIndexes⟩

theorem SameIndexes.refl (s : Storage) : SameIndexes s s := ⟨⟨rfl, rfl, rfl, rfl⟩, rfl, rfl⟩

theorem SameIndexes.symm {s d : Storage} (h : SameIndexes s d) : SameIndexes d s :=
  ⟨⟨h.transactions.symm, h.spentKeys.symm, h.outputs.symm, h.aliases.symm⟩, h.blocksIndex.symm,
    h.scratchpad.symm⟩

theorem SameIndexes.trans {s d e : Storage} (h : SameIndexes s d) (h' : SameIndexes d e) :
    SameIndexes s e :=
  ⟨⟨h'.transactions.trans h.transactions, h'.spentKeys.trans h.spentKeys,
    h'.outputs.trans h.outputs, h'.aliases.trans h.aliases⟩, h'.blocksIndex.trans h.blocksIndex,
    h'.scratchpad.trans h.scratchpad⟩

/-! ## A rebuild only adds -/

/-- What alias writes and the writes of one transaction keep, the rebuild of a
block's transactions keeps. -/
theorem keeps_rebuildTransactions {P : Storage → Prop} (env : Env)
    (halias : ∀ s s' : Storage, s'.withoutAliases = s.withoutAliases → P s → P s')
    (hwrite : ∀ (id : Hash) (idx : TransactionIndex) (ks : List KeyImage) (vout : List TxOut)
      (s : Storage), P s → P { s with
        mTransactions := s.mTransactions.insertIfNew id idx
        mSpentKeys := s.mSpentKeys.insertMany ks
        mOutputs := (pushOutputs idx 0 vout s.mOutputs).1 })
    (b t : Nat) (es : List TransactionEntry) : Keeps P (rebuildTransactions env b t es) := by
  induction es generalizing t with
  | nil => exact Keeps.ite (Keeps.throw _) (Keeps.pure _)
  | cons e rest ih =>
    refine Keeps.ite (Keeps.throw _) (Keeps.bind ?_ fun r => Keeps.ite (ih _) (Keeps.pure _))
    refine Keeps.bind ?_ fun r => Keeps.ite (Keeps.ite (Keeps.throw _) (Keeps.bind
      (Keeps.modify fun s hs => hwrite _ _ _ _ s hs) fun _ => Keeps.pure _)) (Keeps.pure _)
    exact fun s hs => halias _ _ (processBlockchainTxExtra_withoutAliases env e.tx s) hs

/-- The entries of the index, of `m_transactions` and of `m_spent_keys` in `d`
are in `s`. -/
structure Holds (d s : Storage) : Prop where
  index : d.mBlocksIndex <+: s.mBlocksIndex
  transactions : ∀ (id : Hash) i, d.mTransactions[id]? = some i → s.mTransactions[id]? = some i
  spentKeys : ∀ k ∈ d.mSpentKeys, k ∈ s.mSpentKeys

theorem keeps_holds_rebuildTransactions (env : Env) (d : Storage) (b t : Nat)
    (es : List TransactionEntry) : Keeps (Holds d) (rebuildTransactions env b t es) := by
  refine keeps_rebuildTransactions env (fun s s' hs h => ?_) (fun id idx ks vout s h => ?_) b t es
  · have hi : s'.mBlocksIndex = s.mBlocksIndex := by
      have := congrArg Storage.mBlocksIndex hs; exact this
    have ht : s'.mTransactions = s.mTransactions := by
      have := congrArg Storage.mTransactions hs; exact this
    have hk : s'.mSpentKeys = s.mSpentKeys := by
      have := congrArg Storage.mSpentKeys hs; exact this
    exact ⟨hi ▸ h.index, ht ▸ h.transactions, hk ▸ h.spentKeys⟩
  · refine ⟨h.index, fun id' i hid => ?_, fun k hk => ?_⟩
    · show (s.mTransactions.insertIfNew _ _)[id']? = some i
      rw [Std.ExtTreeMap.getElem?_insertIfNew, if_neg, h.transactions id' i hid]
      rintro ⟨hc, hn⟩
      rw [Std.LawfulEqCmp.eq_of_compare hc] at hn
      exact hn (Std.ExtTreeMap.isSome_getElem?_iff_mem.1 (by rw [h.transactions id' i hid]; rfl))
    · show k ∈ s.mSpentKeys.insertMany _
      rw [Std.ExtTreeSet.mem_insertMany_list]
      exact .inl (h.spentKeys k hk)

theorem prefix_indexPush {p index : List Hash} (h : p <+: index) (id : Hash) :
    p <+: (indexPush index id).2 := by
  unfold indexPush
  split
  · exact h
  · exact h.trans (List.prefix_append _ _)

/-- What a rebuild finds in the index, `m_transactions` and `m_spent_keys` stays
there. -/
theorem keeps_holds_rebuildBlocks (env : Env) (d : Storage) (b : Nat) (bs : List BlockEntry) :
    Keeps (Holds d) (rebuildBlocks env b bs) := by
  induction bs generalizing b with
  | nil => exact Keeps.pure _
  | cons e rest ih =>
    refine Keeps.bind (Keeps.bind (Keeps.modify fun s hs =>
      ⟨prefix_indexPush hs.index _, hs.transactions, hs.spentKeys⟩) fun _ => Keeps.bind
        (keeps_holds_rebuildTransactions env d b 0 e.transactions) fun _ s hs => ?_) fun _ => ih _
    cases hpad : pushBlockScratchpadData env e.bl s.mScratchpad with
    | error err =>
      rw [appendScratchpad_of_error hpad]
      exact hs
    | ok pad =>
      rw [appendScratchpad_of_ok hpad]
      exact ⟨hs.index, hs.transactions, hs.spentKeys⟩

theorem holds_rebuildBlocks {env : Env} {b : Nat} {bs : List BlockEntry} {d d' : Storage}
    (h : rebuildBlocks env b bs d = .ok ⟨⟩ d') : Holds d d' := by
  have := keeps_holds_rebuildBlocks env d b bs d ⟨List.prefix_rfl, fun _ _ h => h, fun _ h => h⟩
  rwa [h] at this

/-- New ids go to the end of the index. -/
theorem rebuildBlocks_index {env : Env} {b : Nat} {bs : List BlockEntry} {d d' : Storage}
    (h : rebuildBlocks env b bs d = .ok ⟨⟩ d') (hn : (d.mBlocksIndex ++ blockIds env bs).Nodup) :
    d'.mBlocksIndex = d.mBlocksIndex ++ blockIds env bs := by
  induction bs generalizing b d with
  | nil =>
    cases h
    simp [blockIds]
  | cons e rest ih =>
    obtain ⟨_, d₁, he, hrest⟩ := bind_eq_ok.1 h
    have hcons : blockIds env (e :: rest) = getBlockHash env e.bl :: blockIds env rest := rfl
    rw [hcons] at hn ⊢
    have hfresh : getBlockHash env e.bl ∉ d.mBlocksIndex := fun hm =>
      (List.nodup_append.1 hn).2.2 _ hm _ List.mem_cons_self rfl
    have h₁ : d₁.mBlocksIndex = d.mBlocksIndex ++ [getBlockHash env e.bl] := by
      have hkeep : Keeps (fun s : Storage => s.mBlocksIndex =
          (indexPush d.mBlocksIndex (getBlockHash env e.bl)).2)
          (do rebuildTransactions env b 0 e.transactions; appendScratchpad env e.bl) := by
        refine Keeps.bind (keeps_rebuildTransactions env (fun s s' hs h => ?_)
          (fun _ _ _ _ s h => h) b 0 e.transactions) fun _ s hs => ?_
        · have := congrArg Storage.mBlocksIndex hs
          exact Eq.trans this h
        · cases hpad : pushBlockScratchpadData env e.bl s.mScratchpad with
          | error err =>
            rw [appendScratchpad_of_error hpad]
            exact hs
          | ok pad =>
            rw [appendScratchpad_of_ok hpad]
            exact hs
      unfold rebuildBlock at he
      rw [bind_of_ok (modify_apply _ d)] at he
      have := hkeep
        { d with mBlocksIndex := (indexPush d.mBlocksIndex (getBlockHash env e.bl)).2 } rfl
      rw [he, stateOf_ok] at this
      rw [this, indexPush, if_neg hfresh]
    have hn₁ : (d₁.mBlocksIndex ++ blockIds env rest).Nodup := by
      rw [h₁, List.append_assoc]
      exact hn
    rw [ih hrest hn₁, h₁, List.append_assoc]
    rfl

/-! ## True entries that were left do no harm -/

/-- A storage at the start of `init`: its blocks are there, its indexes are
empty. -/
def Fresh (d : Storage) : Prop := d.clearAllCacheData = d

theorem fresh_clearAllCacheData (s : Storage) : Fresh s.clearAllCacheData := rfl

/-- A rebuild over a part of the true index, transactions and key images. -/
theorem Over.rebuild_true {env : Env} {bs : List BlockEntry} {d e s₀ : Storage} {p : List Hash}
    {S : Map Hash TransactionIndex} {K : Std.ExtTreeSet KeyImage compare} (h : Over p S K ∅ d e)
    (h₀ : DarknetSpace.rebuildBlocks env 0 bs d = .ok ⟨⟩ s₀) (hn : s₀.mBlocksIndex.Nodup)
    (hp : p <+: s₀.mBlocksIndex)
    (hS : ∀ (id : Hash) i, S[id]? = some i → s₀.mTransactions[id]? = some i)
    (hK : ∀ k ∈ K, k ∈ s₀.mSpentKeys) :
    ∃ e', DarknetSpace.rebuildBlocks env 0 bs e = .ok ⟨⟩ e' ∧ SameIndexes s₀ e' := by
  obtain ⟨e', he', h'⟩ := h.rebuildBlocks h₀
  refine ⟨e', he', ⟨?_, ?_, ?_, h'.aliases⟩, ?_, h'.scratchpad⟩
  · apply Std.ExtTreeMap.ext_getElem?
    intro id
    rw [h'.transactions]
    cases hs : S[id]? with
    | none => exact Option.none_or
    | some i =>
      rw [hS id i hs]
      rfl
  · apply Std.ExtTreeSet.ext_mem
    intro k
    rw [h'.spentKeys]
    exact or_iff_right_of_imp (hK k)
  · refine FinMap.ext_getD [] (fun a => ?_) fun a => ?_
    · rw [h'.amounts]
      simp
    · rw [h'.outputs]
      simp
  · obtain ⟨rest, hrest⟩ := hp
    rw [h'.index, ← hrest]
    rw [← hrest, List.nodup_append] at hn
    have hkeep : rest.filter (· ∉ p) = rest := by
      rw [List.filter_eq_self]
      intro x hx
      simpa using fun hxp => hn.2.2 x hxp x hx rfl
    have hdrop : p.filter (· ∉ p) = [] := by
      rw [List.filter_eq_nil_iff]
      intro x hx
      simpa using hx
    rw [List.filter_append, hkeep, hdrop, List.nil_append]

end DarknetSpace
