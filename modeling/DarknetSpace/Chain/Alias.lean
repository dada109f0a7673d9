import DarknetSpace.Chain.Record

/-!
# Alias histories

`m_aliases` keeps, for each name, every registration and update in order, and
`m_addr_to_alias` the name an address has now. A recorded transaction appends
at most one entry to one history; only a coinbase takes its entry back, and it
takes the last one, whoever put it there.

An entry is put behind the others of its name, if the name is free or the entry is
signed by who had it last (`putAliasInfo_true`). So putting and taking back are inverse
on the histories (`popAliasInfo_putAliasInfo`), but on the map by address only if the
address had no other name. What a transaction does follows: `aliasHistory_process` for
recording one, and `unprocessBlockchainTxExtra_eq` for taking one out, which looks at
coinbases only.
-/

namespace DarknetSpace

open StateExn

/-! ## Putting an alias and taking it back -/

/-- `get_alias_info`; `none` where the source returns `false`. -/
def getAliasInfo (s : Storage) (name : Blob) : Option AliasInfoBase :=
  match s.mAliases[name]? with
  | some history => history.getLast?
  | none => none

theorem getAliasInfo_eq (s : Storage) (name : Blob) :
    getAliasInfo s name = (aliasHistory s name).getLast? := by
  unfold getAliasInfo aliasHistory
  rw [Std.ExtTreeMap.getD_eq_getD_getElem?]
  cases s.mAliases[name]? <;> rfl

/-- A history written back unchanged changes nothing, unless the name had no
entry. -/
theorem insert_aliasHistory_eq_iff (s : Storage) (name : Blob) :
    s.mAliases.insert name (aliasHistory s name) = s.mAliases ↔ s.mAliases.contains name := by
  constructor
  · intro h
    rw [← h]
    simp
  · intro h
    apply FinMap.insert_eq_self
    rw [aliasHistory, Std.ExtTreeMap.getD_eq_getD_getElem?]
    rw [Std.ExtTreeMap.contains_eq_isSome_getElem?, Option.isSome_iff_exists] at h
    obtain ⟨v, hv⟩ := h
    rw [hv]
    rfl

theorem putAliasInfo_false {env : Env} {ai : AliasInfo} {s : Storage}
    (hne : ai.mAlias ≠ []) (h : (putAliasInfo env ai s).1 = false) :
    (putAliasInfo env ai s).2 = s.setHistory ai.mAlias (aliasHistory s ai.mAlias) := by
  unfold putAliasInfo at h ⊢
  rw [if_neg hne] at h ⊢
  simp only at h ⊢
  split at h
  · split at h
    · cases h
    · next hsig => rw [if_neg hsig]
  · split at h
    · next hsig => rw [if_pos hsig]
    · next hsig =>
      split at h
      · cases h
      · next hchk => rw [if_neg hsig, if_neg hchk]

/-- What an accepted alias writes. -/
theorem putAliasInfo_true {env : Env} {ai : AliasInfo} {s : Storage}
    (h : (putAliasInfo env ai s).1 = true) :
    ai.mAlias ≠ [] ∧
    (putAliasInfo env ai s).2 =
      { s with
        mAliases := s.mAliases.insert ai.mAlias
          (aliasHistory s ai.mAlias ++ [ai.toAliasInfoBase])
        mAddrToAlias := ((aliasHistory s ai.mAlias).getLast?.elim s.mAddrToAlias
          fun last => s.mAddrToAlias.erase last.mAddress).insert ai.mAddress ai.mAlias } := by
  unfold putAliasInfo at h ⊢
  split at h
  · cases h
  · next hne =>
    refine ⟨hne, ?_⟩
    rw [if_neg hne]
    simp only at h ⊢
    split at h
    · next hl =>
      split at h
      · next hsig =>
        rw [if_pos hsig]
        simp [Storage.setHistory, FinMap.insert_insert, hl]
      · cases h
    · next last hl =>
      split at h
      · cases h
      · next hsig =>
        split at h
        · next hchk =>
          rw [if_neg hsig, if_pos hchk]
          simp [Storage.setHistory, FinMap.insert_insert, hl]
        · cases h

/-- Taking back the alias that was put last. -/
theorem popAliasInfo_putAliasInfo {env : Env} {ai : AliasInfo} {s : Storage}
    (h : (putAliasInfo env ai s).1 = true) :
    popAliasInfo ai (putAliasInfo env ai s).2 =
      (true,
        { s with
          mAliases := s.mAliases.insert ai.mAlias (aliasHistory s ai.mAlias)
          mAddrToAlias := (aliasHistory s ai.mAlias).getLast?.elim
            (s.mAddrToAlias.erase ai.mAddress)
            fun last => ((s.mAddrToAlias.erase last.mAddress).erase ai.mAddress).insert
              last.mAddress ai.mAlias }) := by
  obtain ⟨hne, hput⟩ := putAliasInfo_true h
  rw [hput]
  unfold popAliasInfo
  rw [if_neg hne]
  simp only [aliasHistory, Std.ExtTreeMap.getD_insert_self, List.getLast?_append,
    List.getLast?_singleton, Option.some_or, Storage.setHistory, List.dropLast_concat,
    FinMap.insert_insert, FinMap.erase_insert]
  cases (s.mAliases.getD ai.mAlias []).getLast? <;> rfl

/-! ## What a transaction's extra field does to the histories -/

/-- The alias a transaction carries, if its extra field is valid. -/
def txAlias (env : Env) (tx : TransactionPrefix) : Option AliasInfo :=
  match parseAndValidateTxExtra env tx with
  | .ok (true, ei) => if ei.mAlias.mAlias = [] then none else some ei.mAlias
  | _ => none

theorem txAlias_ne_nil {env : Env} {tx : TransactionPrefix} {ai : AliasInfo}
    (h : txAlias env tx = some ai) : ai.mAlias ≠ [] := by
  unfold txAlias at h
  split at h
  · split at h
    · cases h
    · next hne =>
      cases h
      exact hne
  · cases h

/-- What the alias of a transaction adds to the history of `name`. -/
def aliasEntries (env : Env) (tx : TransactionPrefix) (name : Blob) : List AliasInfoBase :=
  match txAlias env tx with
  | some ai => if ai.mAlias = name then [ai.toAliasInfoBase] else []
  | none => []

theorem processBlockchainTxExtra_true {env : Env} {tx : Transaction} {s s' : Storage}
    (h : processBlockchainTxExtra env tx s = .ok true s') :
    (∃ ei, parseAndValidateTxExtra env tx.toTransactionPrefix = .ok (true, ei)) ∧
    match txAlias env tx.toTransactionPrefix with
    | none => s' = s
    | some ai => (putAliasInfo env ai s).1 = true ∧ s' = (putAliasInfo env ai s).2 := by
  unfold processBlockchainTxExtra at h
  unfold txAlias
  split at h
  · cases h
  · cases h
  · next ei hp =>
    refine ⟨⟨ei, hp⟩, ?_⟩
    simp only [hp]
    split at h
    · next hempty =>
      cases h
      simp [hempty]
    · next hempty =>
      rw [if_neg hempty]
      simp only
      cases hput : (putAliasInfo env ei.mAlias s).1 with
      | false => rw [hput] at h; cases h
      | true =>
        rw [hput] at h
        cases h
        exact ⟨rfl, rfl⟩

/-- Taking back the alias of a transaction whose extra field is valid. -/
theorem unprocessBlockchainTxExtra_eq {env : Env} {tx : Transaction} {ei : TxExtraInfo}
    (hp : parseAndValidateTxExtra env tx.toTransactionPrefix = .ok (true, ei)) (s : Storage) :
    unprocessBlockchainTxExtra env tx s =
      if isCoinbase tx.toTransactionPrefix then
        match txAlias env tx.toTransactionPrefix with
        | none => .ok true s
        | some ai => .ok (popAliasInfo ai s).1 (popAliasInfo ai s).2
      else .ok true s := by
  unfold unprocessBlockchainTxExtra txAlias
  simp only [hp]
  split
  · split <;> rfl
  · rfl

theorem aliasHistory_insert (s : Storage) (m : Map AccountPublicAddress Blob) (name name' : Blob)
    (l : List AliasInfoBase) :
    aliasHistory { s with mAliases := s.mAliases.insert name l, mAddrToAlias := m } name' =
      if name = name' then l else aliasHistory s name' := by
  unfold aliasHistory
  rw [Std.ExtTreeMap.getD_insert]
  by_cases hn : name = name'
  · simp [hn]
  · have hc : compare name name' ≠ .eq := fun hc => hn (Std.LawfulEqCmp.eq_of_compare hc)
    simp [hn, hc]

/-- A recorded transaction appends its alias to the history of its name. -/
theorem aliasHistory_process {env : Env} {tx : Transaction} {s s' : Storage}
    (h : processBlockchainTxExtra env tx s = .ok true s') (name : Blob) :
    aliasHistory s' name = aliasHistory s name ++ aliasEntries env tx.toTransactionPrefix name := by
  obtain ⟨-, h⟩ := processBlockchainTxExtra_true h
  unfold aliasEntries
  split at h
  · next hn =>
    rw [hn, h]
    simp
  · next ai hs =>
    obtain ⟨hput, rfl⟩ := h
    rw [(putAliasInfo_true hput).2, aliasHistory_insert, hs]
    simp only
    split
    · next hname => rw [hname]
    · simp

/-- Popping shortens the history of its name by one. -/
theorem aliasHistory_popAliasInfo {ai : AliasInfo} {s : Storage} (hne : ai.mAlias ≠ [])
    (hh : aliasHistory s ai.mAlias ≠ []) (name : Blob) :
    (popAliasInfo ai s).1 = true ∧
      aliasHistory (popAliasInfo ai s).2 name =
        if ai.mAlias = name then (aliasHistory s name).dropLast else aliasHistory s name := by
  unfold popAliasInfo
  rw [if_neg hne]
  simp only
  cases hl : (aliasHistory s ai.mAlias).getLast? with
  | none => exact absurd (List.getLast?_eq_none_iff.1 hl) hh
  | some last =>
    refine ⟨rfl, ?_⟩
    simp only [Storage.setHistory]
    rw [aliasHistory_insert]
    split
    · next hname => rw [hname]
    · rfl

end DarknetSpace
