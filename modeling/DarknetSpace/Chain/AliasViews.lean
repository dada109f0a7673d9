import DarknetSpace.Chain.Batch
import DarknetSpace.Core.Core
import Mathlib.Data.Set.Card

/-!
# The views of the alias registry

The registry is read in four ways: the count of all names, the list of all
names, the latest entry of a name, and the name of an address. The first three
read `m_aliases`, where a name that was looked up and refused, or whose last
entry was taken back, stays with an empty history; the last reads
`m_addr_to_alias`, which has room for one name at each address and drops it
when that name, or another one at the same address, moves on.

`Safe` is the condition on a single operation under which neither happens, and
the views agree all along a run exactly when each of its operations meets it.
-/

namespace DarknetSpace

/-! ## Reading the registry -/

/-- `get_aliases_count`. -/
def getAliasesCount (s : Storage) : Nat := s.mAliases.size

/-- `get_all_aliases`. -/
def getAllAliases (s : Storage) : List AliasInfo :=
  s.mAliases.toList.filterMap fun a =>
    a.2.getLast?.map fun info => { info with mAlias := a.1 }

/-- `get_alias_by_address`. -/
def getAliasByAddress (s : Storage) (addr : AccountPublicAddress) : Blob :=
  s.mAddrToAlias.getD addr []

/-- `fill_addr_to_alias_dict`. -/
def fillAddrToAliasDict (s : Storage) : Storage :=
  { s with
    mAddrToAlias := s.mAliases.toList.foldl
      (fun dict a =>
        match a.2.getLast? with
        | some last => dict.insert last.mAddress a.1
        | none => dict)
      s.mAddrToAlias }

/-- One operation on the registry. A restarted process has `m_aliases` from the
cache and an empty `m_addr_to_alias` to fill. -/
inductive AliasOp
  | put (ai : AliasInfo)
  | pop (ai : AliasInfo)
  | restart

/-- The storage after one operation. -/
def aliasStep (env : Env) (s : Storage) : AliasOp → Storage
  | .put ai => (putAliasInfo env ai s).2
  | .pop ai => (popAliasInfo ai s).2
  | .restart => fillAddrToAliasDict { s with mAddrToAlias := ∅ }

/-- The storage after some operations, in order. -/
def aliasRun (env : Env) (s : Storage) (ops : List AliasOp) : Storage :=
  ops.foldl (aliasStep env) s

/-! ## Agreement -/

/-- The latest entry of `name` has the address `addr`. -/
def ResolvesTo (s : Storage) (name : Blob) (addr : AccountPublicAddress) : Prop :=
  ∃ info, getAliasInfo s name = some info ∧ info.mAddress = addr

/-- The three views of the aliases say the same: by name, by address, and all of them. -/
structure ViewsAgree (s : Storage) : Prop where
  count : getAliasesCount s = Set.ncard { name | (getAliasInfo s name).isSome }
  all : getAliasesCount s = (getAllAliases s).length
  byAddress : ∀ addr, getAliasByAddress s addr ≠ [] ↔ ∃ name, ResolvesTo s name addr
  back : ∀ addr, getAliasByAddress s addr ≠ [] → ResolvesTo s (getAliasByAddress s addr) addr

/-! ## Counting -/

/-- All aliases are those that have an entry. -/
theorem mem_getAllAliases_names {s : Storage} {name : Blob} :
    name ∈ (getAllAliases s).map (·.mAlias) ↔ (getAliasInfo s name).isSome := by
  unfold getAllAliases getAliasInfo
  rw [List.mem_map]
  constructor
  · rintro ⟨ai, hai, rfl⟩
    obtain ⟨⟨name, history⟩, hmem, hlast⟩ := List.mem_filterMap.1 hai
    obtain ⟨info, hinfo, rfl⟩ := Option.map_eq_some_iff.1 hlast
    rw [Std.ExtTreeMap.mem_toList_iff_getElem?_eq_some] at hmem
    rw [hmem]
    exact Option.isSome_of_eq_some hinfo
  · intro h
    cases hget : s.mAliases[name]? with
    | none =>
      rw [hget] at h
      cases h
    | some history =>
      rw [hget] at h
      obtain ⟨info, hinfo⟩ := Option.isSome_iff_exists.1 h
      refine ⟨{ info with mAlias := name }, ?_, rfl⟩
      refine List.mem_filterMap.2 ⟨(name, history), ?_, ?_⟩
      · rw [Std.ExtTreeMap.mem_toList_iff_getElem?_eq_some]
        exact hget
      · show history.getLast?.map _ = _
        rw [show history.getLast? = some info from hinfo]
        rfl

/-- None is listed twice. -/
theorem getAllAliases_names_nodup (s : Storage) : ((getAllAliases s).map (·.mAlias)).Nodup := by
  have hkeys : (s.mAliases.toList.map Prod.fst).Nodup := by
    rw [Std.ExtTreeMap.map_fst_toList_eq_keys]
    exact Std.ExtTreeMap.nodup_keys
  refine hkeys.sublist ?_
  unfold getAllAliases
  induction s.mAliases.toList with
  | nil => exact List.Sublist.slnil
  | cons a rest ih =>
    rw [List.filterMap_cons]
    cases a.2.getLast? with
    | none => exact ih.cons _
    | some info => exact ih.cons_cons _

/-- The names with an entry are as many as the listed ones. -/
theorem ncard_names (s : Storage) :
    Set.ncard { name | (getAliasInfo s name).isSome } = (getAllAliases s).length := by
  have hset : { name | (getAliasInfo s name).isSome } =
      (((getAllAliases s).map (·.mAlias)).toFinset : Set Blob) := by
    ext name
    rw [Set.mem_ofPred_eq, ← mem_getAllAliases_names, List.coe_toFinset, Set.mem_ofPred_eq]
  rw [hset, Set.ncard_coe_finset, List.toFinset_card_of_nodup (getAllAliases_names_nodup s),
    List.length_map]

/-- The count is right exactly when no history is empty. -/
theorem getAliasesCount_eq_iff {s : Storage} :
    getAliasesCount s = (getAllAliases s).length ↔
      ∀ (name : Blob) (history : List AliasInfoBase), s.mAliases[name]? = some history →
        history ≠ [] := by
  unfold getAliasesCount getAllAliases
  rw [← Std.ExtTreeMap.length_toList, eq_comm, List.filterMap_length_eq_length]
  constructor
  · intro h name history hget hnil
    have := h (name, history) (Std.ExtTreeMap.mem_toList_iff_getElem?_eq_some.2 hget)
    rw [hnil] at this
    cases this
  · rintro h ⟨name, history⟩ hmem
    have hne := h name history (Std.ExtTreeMap.mem_toList_iff_getElem?_eq_some.1 hmem)
    rw [Option.isSome_map, List.getLast?_isSome]
    exact hne

/-! ## The invariant -/

/-- The empty name is never registered. -/
structure Named (s : Storage) : Prop where
  keys : s.mAliases[([] : Blob)]? = none
  values : ∀ addr : AccountPublicAddress, s.mAddrToAlias[addr]? ≠ some []

/-- No history is empty, and the two maps answer each other. -/
structure Faithful (s : Storage) : Prop where
  full : ∀ (name : Blob) (history : List AliasInfoBase), s.mAliases[name]? = some history →
    history ≠ []
  back : ∀ (addr : AccountPublicAddress) name, s.mAddrToAlias[addr]? = some name → ResolvesTo s name addr
  forth : ∀ name addr, ResolvesTo s name addr → ∃ name', s.mAddrToAlias[addr]? = some name'

/-- The views agree just when the map by address is faithful. -/
theorem viewsAgree_iff {s : Storage} (hn : Named s) : ViewsAgree s ↔ Faithful s := by
  have hby (addr : AccountPublicAddress) :
      getAliasByAddress s addr ≠ [] ↔ ∃ name, s.mAddrToAlias[addr]? = some name := by
    unfold getAliasByAddress
    rw [Std.ExtTreeMap.getD_eq_getD_getElem?]
    cases hget : s.mAddrToAlias[addr]? with
    | none => exact ⟨fun h => absurd rfl h, nofun⟩
    | some name =>
      refine ⟨fun _ => ⟨name, rfl⟩, fun _ hnil => hn.values addr ?_⟩
      rw [hget]
      exact congrArg some hnil
  constructor
  · intro h
    refine ⟨getAliasesCount_eq_iff.1 h.all, ?_, ?_⟩
    · intro addr name hget
      have hres := h.back addr ((hby addr).2 ⟨name, hget⟩)
      rw [getAliasByAddress, Std.ExtTreeMap.getD_eq_getD_getElem?, hget] at hres
      exact hres
    · intro name addr hres
      exact (hby addr).1 ((h.byAddress addr).2 ⟨name, hres⟩)
  · intro h
    have hall := getAliasesCount_eq_iff.2 h.full
    have hback : ∀ addr, getAliasByAddress s addr ≠ [] →
        ResolvesTo s (getAliasByAddress s addr) addr := by
      intro addr hne
      obtain ⟨name, hget⟩ := (hby addr).1 hne
      rw [getAliasByAddress, Std.ExtTreeMap.getD_eq_getD_getElem?, hget]
      exact h.back addr name hget
    refine ⟨hall.trans (ncard_names s).symm, hall, ?_, hback⟩
    intro addr
    constructor
    · intro hne
      exact ⟨_, hback addr hne⟩
    · rintro ⟨name, hres⟩
      exact (hby addr).2 (h.forth name addr hres)

/-! ## What an operation does -/

/-- The name gets another history, and the address of its old last entry, if it
had one, gives way to that of its new one. -/
def moveAlias (s : Storage) (name : Blob) (history : List AliasInfoBase) : Storage :=
  { s with
    mAliases := s.mAliases.insert name history
    mAddrToAlias :=
      let dict := (getAliasInfo s name).elim s.mAddrToAlias fun l => s.mAddrToAlias.erase l.mAddress
      history.getLast?.elim dict fun l => dict.insert l.mAddress name }

/-- The name may have `addr` from now on: no other name has the address it leaves. -/
def MayMove (s : Storage) (name : Blob) (addr : AccountPublicAddress) : Prop :=
  ∀ last, getAliasInfo s name = some last →
    last.mAddress = addr ∨ ∀ other, other ≠ name → ¬ ResolvesTo s other last.mAddress

/-- The operation keeps the views in agreement: it is not refused on a name
without entries, it does not take back the only entry of a name, and it does
not move a name away from an address that another name has too. -/
def AliasOp.Safe (env : Env) (s : Storage) : AliasOp → Prop
  | .put ai => ai.mAlias = [] ∨
      if nameGranted env (aliasHistory s ai.mAlias) ai then MayMove s ai.mAlias ai.mAddress
      else aliasHistory s ai.mAlias ≠ []
  | .pop ai => ai.mAlias = [] ∨
      ∃ prev, (aliasHistory s ai.mAlias).dropLast.getLast? = some prev ∧
        MayMove s ai.mAlias prev.mAddress
  | .restart => True

section

variable {s : Storage} {name : Blob} {history : List AliasInfoBase}

theorem getAliasInfo_eq_of_get {s' : Storage} {other : Blob}
    (h : s'.mAliases[other]? = s.mAliases[other]?) : getAliasInfo s' other = getAliasInfo s other := by
  unfold getAliasInfo
  rw [h]

theorem getAliasInfo_moveAlias_self : getAliasInfo (moveAlias s name history) name = history.getLast? := by
  unfold getAliasInfo
  rw [show (moveAlias s name history).mAliases[name]? = some history from
    Std.ExtTreeMap.getElem?_insert_self]

theorem getAliasInfo_moveAlias_ne {other : Blob} (h : other ≠ name) :
    getAliasInfo (moveAlias s name history) other = getAliasInfo s other :=
  getAliasInfo_eq_of_get (FinMap.getElem?_insert_ne h)

theorem resolvesTo_moveAlias_ne {other : Blob} {addr : AccountPublicAddress} (h : other ≠ name) :
    ResolvesTo (moveAlias s name history) other addr ↔ ResolvesTo s other addr := by
  unfold ResolvesTo
  rw [getAliasInfo_moveAlias_ne h]

/-- A history written back as it is. -/
theorem faithful_setHistory_iff (h : Faithful s) :
    Faithful (s.setHistory name (aliasHistory s name)) ↔ aliasHistory s name ≠ [] := by
  constructor
  · intro h'
    exact h'.full name _ Std.ExtTreeMap.getElem?_insert_self
  · intro hne
    -- the name is there, so nothing changes
    have hget : s.mAliases[name]? = some (aliasHistory s name) := by
      cases hget : s.mAliases[name]? with
      | none =>
        rw [aliasHistory, Std.ExtTreeMap.getD_eq_getD_getElem?, hget] at hne
        exact absurd rfl hne
      | some history =>
        rw [aliasHistory, Std.ExtTreeMap.getD_eq_getD_getElem?, hget]
        rfl
    have hsame : s.setHistory name (aliasHistory s name) = s := by
      rw [Storage.setHistory, FinMap.insert_eq_self hget]
    rw [hsame]
    exact h

theorem mAddrToAlias_moveAlias_of_new {l : AliasInfoBase} (hl : history.getLast? = some l) :
    (moveAlias s name history).mAddrToAlias[l.mAddress]? = some name := by
  unfold moveAlias
  rw [hl]
  exact Std.ExtTreeMap.getElem?_insert_self

/-- The old address has no name any more, unless it is the new one. -/
theorem mAddrToAlias_moveAlias_of_old {last : AliasInfoBase}
    (hlast : getAliasInfo s name = some last)
    (hne : ∀ l, history.getLast? = some l → last.mAddress ≠ l.mAddress) :
    (moveAlias s name history).mAddrToAlias[last.mAddress]? = none := by
  unfold moveAlias
  rw [hlast]
  simp only [Option.elim_some]
  cases hl : history.getLast? with
  | none => exact Std.ExtTreeMap.getElem?_erase_self
  | some l => exact (FinMap.getElem?_insert_ne (hne l hl)).trans Std.ExtTreeMap.getElem?_erase_self

/-- Other addresses keep their names. -/
theorem mAddrToAlias_moveAlias_of_ne {addr : AccountPublicAddress}
    (hold : ∀ last, getAliasInfo s name = some last → addr ≠ last.mAddress)
    (hnew : ∀ l, history.getLast? = some l → addr ≠ l.mAddress) :
    (moveAlias s name history).mAddrToAlias[addr]? = s.mAddrToAlias[addr]? := by
  have hdict : ((getAliasInfo s name).elim s.mAddrToAlias
      fun l => s.mAddrToAlias.erase l.mAddress)[addr]? = s.mAddrToAlias[addr]? := by
    cases hlast : getAliasInfo s name with
    | none => rfl
    | some last => exact FinMap.getElem?_erase_ne (hold last hlast)
  unfold moveAlias
  simp only
  cases hl : history.getLast? with
  | none => exact hdict
  | some l => exact (FinMap.getElem?_insert_ne (hnew l hl)).trans hdict

/-- The map stays faithful just when the new address is free, or has the name itself. -/
theorem faithful_moveAlias_iff (h : Faithful s) :
    Faithful (moveAlias s name history) ↔
      ∃ l, history.getLast? = some l ∧ MayMove s name l.mAddress := by
  constructor
  · intro h'
    have hne : history ≠ [] := h'.full name history Std.ExtTreeMap.getElem?_insert_self
    obtain ⟨l, hl⟩ := Option.isSome_iff_exists.1 (List.getLast?_isSome.2 hne)
    refine ⟨l, hl, ?_⟩
    intro last hlast
    by_cases heq : last.mAddress = l.mAddress
    · exact Or.inl heq
    · right
      -- another name of the old owner loses its way back
      intro other hother hres
      obtain ⟨name', hname'⟩ := h'.forth other last.mAddress ((resolvesTo_moveAlias_ne hother).2 hres)
      rw [mAddrToAlias_moveAlias_of_old hlast] at hname'
      · cases hname'
      · intro l' hl'
        rw [hl] at hl'
        cases hl'
        exact heq
  · rintro ⟨l, hl, hmove⟩
    refine ⟨?_, ?_, ?_⟩
    · intro other history' hget
      by_cases ho : other = name
      · rw [ho, show (moveAlias s name history).mAliases[name]? = some history from
          Std.ExtTreeMap.getElem?_insert_self] at hget
        cases hget
        rintro rfl
        cases hl
      · rw [show (moveAlias s name history).mAliases[other]? = s.mAliases[other]? from
          FinMap.getElem?_insert_ne ho] at hget
        exact h.full other history' hget
    · intro addr name' hget
      by_cases hnew : addr = l.mAddress
      · rw [hnew, mAddrToAlias_moveAlias_of_new hl] at hget
        cases hget
        rw [hnew]
        exact ⟨l, getAliasInfo_moveAlias_self.trans hl, rfl⟩
      -- the address is not the new owner's: unchanged, unless it is the old owner's
      · have hnew' : ∀ l', history.getLast? = some l' → addr ≠ l'.mAddress := by
          intro l' hl'
          rw [hl] at hl'
          cases hl'
          exact hnew
        by_cases hold : ∀ last, getAliasInfo s name = some last → addr ≠ last.mAddress
        · rw [mAddrToAlias_moveAlias_of_ne hold hnew'] at hget
          have hres := h.back addr name' hget
          refine (resolvesTo_moveAlias_ne ?_).2 hres
          rintro rfl
          obtain ⟨info, hinfo, haddr⟩ := hres
          exact hold info hinfo haddr.symm
        · push Not at hold
          obtain ⟨last, hlast, rfl⟩ := hold
          rw [mAddrToAlias_moveAlias_of_old hlast hnew'] at hget
          cases hget
    · intro other addr hres
      by_cases hnew : addr = l.mAddress
      · rw [hnew]
        exact ⟨name, mAddrToAlias_moveAlias_of_new hl⟩
      · have hnew' : ∀ l', history.getLast? = some l' → addr ≠ l'.mAddress := by
          intro l' hl'
          rw [hl] at hl'
          cases hl'
          exact hnew
        have hother : other ≠ name := by
          rintro rfl
          obtain ⟨info, hinfo, haddr⟩ := hres
          rw [getAliasInfo_moveAlias_self] at hinfo
          exact hnew' info hinfo haddr.symm
        rw [resolvesTo_moveAlias_ne hother] at hres
        have hold : ∀ last, getAliasInfo s name = some last → addr ≠ last.mAddress := by
          rintro last hlast rfl
          rcases hmove last hlast with heq | hno
          · exact hnew heq
          · exact hno other hother hres
        rw [mAddrToAlias_moveAlias_of_ne hold hnew']
        exact h.forth other addr hres

end

/-! ## Refilling the dictionary -/

/-- The body of the loop of `fillAddrToAliasDict`. -/
def fillEntry (dict : Map AccountPublicAddress Blob) (a : Blob × List AliasInfoBase) :
    Map AccountPublicAddress Blob :=
  match a.2.getLast? with
  | some last => dict.insert last.mAddress a.1
  | none => dict

/-- An entry writes its own address and no other. -/
theorem getElem?_fillEntry (dict : Map AccountPublicAddress Blob) (a : Blob × List AliasInfoBase)
    (addr : AccountPublicAddress) :
    ((∃ last, a.2.getLast? = some last ∧ last.mAddress = addr) ∧
      (fillEntry dict a)[addr]? = some a.1) ∨
    ((∀ last, a.2.getLast? = some last → last.mAddress ≠ addr) ∧
      (fillEntry dict a)[addr]? = dict[addr]?) := by
  unfold fillEntry
  cases hl : a.2.getLast? with
  | none =>
    right
    refine ⟨?_, rfl⟩
    intro last hlast
    cases hlast
  | some last =>
    by_cases heq : last.mAddress = addr
    · left
      rw [← heq]
      exact ⟨⟨last, rfl, rfl⟩, Std.ExtTreeMap.getElem?_insert_self⟩
    · right
      refine ⟨?_, FinMap.getElem?_insert_ne fun he => heq he.symm⟩
      intro last' hl'
      cases hl'
      exact heq

/-- What the loop finds for an address comes from an entry, or was there, and an
entry's address is found. -/
theorem foldl_fillEntry (l : List (Blob × List AliasInfoBase))
    (dict : Map AccountPublicAddress Blob) (addr : AccountPublicAddress) :
    (∀ name, (l.foldl fillEntry dict)[addr]? = some name →
      (∃ a ∈ l, a.1 = name ∧ ∃ last, a.2.getLast? = some last ∧ last.mAddress = addr) ∨
        dict[addr]? = some name) ∧
    ((∃ a ∈ l, ∃ last, a.2.getLast? = some last ∧ last.mAddress = addr) ∨
        (∃ name, dict[addr]? = some name) →
      ∃ name, (l.foldl fillEntry dict)[addr]? = some name) := by
  induction l generalizing dict with
  | nil =>
    refine ⟨fun name h => Or.inr h, ?_⟩
    rintro (⟨a, ha, -⟩ | h)
    · cases ha
    · exact h
  | cons a rest ih =>
    obtain ⟨ih₁, ih₂⟩ := ih (fillEntry dict a)
    rw [List.foldl_cons]
    constructor
    · intro name hget
      rcases ih₁ name hget with ⟨b, hb, hrest⟩ | hdict
      · exact Or.inl ⟨b, List.mem_cons_of_mem _ hb, hrest⟩
      · rcases getElem?_fillEntry dict a addr with ⟨hlast, hself⟩ | ⟨-, hsame⟩
        · rw [hself] at hdict
          exact Or.inl ⟨a, List.mem_cons_self, Option.some.inj hdict, hlast⟩
        · rw [hsame] at hdict
          exact Or.inr hdict
    · intro h
      apply ih₂
      rcases getElem?_fillEntry dict a addr with ⟨-, hself⟩ | ⟨hno, hsame⟩
      · exact Or.inr ⟨a.1, hself⟩
      · rcases h with ⟨b, hb, last, hlast, haddr⟩ | hdict
        · rcases List.mem_cons.1 hb with rfl | hb
          · exact absurd haddr (hno last hlast)
          · exact Or.inl ⟨b, hb, last, hlast, haddr⟩
        · rw [hsame]
          exact Or.inr hdict

/-- Filling the map anew gives a faithful one, if there was one. -/
theorem faithful_restart {s : Storage} (h : Faithful s) :
    Faithful (fillAddrToAliasDict { s with mAddrToAlias := ∅ }) := by
  have hfold := foldl_fillEntry s.mAliases.toList ∅
  refine ⟨h.full, ?_, ?_⟩
  · intro addr name hget
    rcases (hfold addr).1 name hget with ⟨⟨name', history⟩, hmem, rfl, last, hlast, haddr⟩ | hnone
    · refine ⟨last, ?_, haddr⟩
      rw [Std.ExtTreeMap.mem_toList_iff_getElem?_eq_some] at hmem
      show getAliasInfo s name' = _
      unfold getAliasInfo
      rw [hmem]
      exact hlast
    · rw [Std.ExtTreeMap.getElem?_empty] at hnone
      cases hnone
  · rintro name addr ⟨info, hinfo, haddr⟩
    refine (hfold addr).2 (Or.inl ?_)
    change getAliasInfo s name = some info at hinfo
    unfold getAliasInfo at hinfo
    split at hinfo
    · next history hget =>
      exact ⟨(name, history), Std.ExtTreeMap.mem_toList_iff_getElem?_eq_some.2 hget, info, hinfo,
        haddr⟩
    · cases hinfo

/-! ## One operation -/

/-- A name that is granted moves to a history with one entry more. -/
theorem putAliasInfo_granted {env : Env} {ai : AliasInfo} {s : Storage} (hne : ai.mAlias ≠ [])
    (h : nameGranted env (aliasHistory s ai.mAlias) ai = true) :
    (putAliasInfo env ai s).2 =
      moveAlias s ai.mAlias (aliasHistory s ai.mAlias ++ [ai.toAliasInfoBase]) := by
  have hput := (putAliasInfo_true ((putAliasInfo_fst hne s).trans h)).2
  rw [hput, moveAlias, getAliasInfo_eq, List.getLast?_concat]
  rfl

/-- Taking an alias back moves the name to a history with one entry less. -/
theorem popAliasInfo_eq {ai : AliasInfo} {s : Storage} (hne : ai.mAlias ≠ []) :
    (popAliasInfo ai s).2 =
      if aliasHistory s ai.mAlias = [] then s.setHistory ai.mAlias (aliasHistory s ai.mAlias)
      else moveAlias s ai.mAlias (aliasHistory s ai.mAlias).dropLast := by
  unfold popAliasInfo
  rw [if_neg hne]
  simp only
  cases hlast : (aliasHistory s ai.mAlias).getLast? with
  | none =>
    rw [List.getLast?_eq_none_iff] at hlast
    rw [if_pos hlast]
  | some last =>
    have hfull : aliasHistory s ai.mAlias ≠ [] := by
      intro hnil
      rw [hnil] at hlast
      cases hlast
    rw [if_neg hfull, moveAlias, getAliasInfo_eq, hlast]
    cases (aliasHistory s ai.mAlias).dropLast.getLast? <;> rfl

/-- The views agree after an operation exactly when it is safe. -/
theorem faithful_aliasStep_iff {env : Env} {s : Storage} (h : Faithful s) (op : AliasOp) :
    Faithful (aliasStep env s op) ↔ op.Safe env s := by
  cases op with
  | put ai =>
    show Faithful (putAliasInfo env ai s).2 ↔ _ ∨ _
    by_cases hne : ai.mAlias = []
    · rw [putAliasInfo, if_pos hne]
      exact ⟨fun _ => Or.inl hne, fun _ => h⟩
    · by_cases hgrant : nameGranted env (aliasHistory s ai.mAlias) ai = true
      · rw [putAliasInfo_granted hne hgrant, faithful_moveAlias_iff h, if_pos hgrant,
          List.getLast?_concat]
        constructor
        · rintro ⟨l, hl, hmove⟩
          cases hl
          exact Or.inr hmove
        · rintro (hnil | hmove)
          · exact absurd hnil hne
          · exact ⟨_, rfl, hmove⟩
      · have hrefused := (putAliasInfo_fst hne s).trans (Bool.eq_false_iff.2 hgrant)
        rw [putAliasInfo_false hne hrefused, faithful_setHistory_iff h, if_neg hgrant]
        exact ⟨Or.inr, fun hor => hor.resolve_left hne⟩
  | pop ai =>
    show Faithful (popAliasInfo ai s).2 ↔ _ ∨ _
    by_cases hne : ai.mAlias = []
    · rw [popAliasInfo, if_pos hne]
      exact ⟨fun _ => Or.inl hne, fun _ => h⟩
    · rw [popAliasInfo_eq hne]
      by_cases hnil : aliasHistory s ai.mAlias = []
      · rw [if_pos hnil, faithful_setHistory_iff h]
        constructor
        · intro hfull
          exact absurd hnil hfull
        · rintro (hname | ⟨prev, hprev, -⟩)
          · exact absurd hname hne
          · rw [hnil] at hprev
            cases hprev
      · rw [if_neg hnil, faithful_moveAlias_iff h]
        exact ⟨Or.inr, fun hor => hor.resolve_left hne⟩
  | restart => exact ⟨fun _ => trivial, fun _ => faithful_restart h⟩

/-! The empty name stays out, whatever is done. -/

theorem Named.setHistory {s : Storage} (h : Named s) {name : Blob} (hne : name ≠ [])
    (history : List AliasInfoBase) : Named (s.setHistory name history) where
  keys := (FinMap.getElem?_insert_ne (Ne.symm hne)).trans h.keys
  values := h.values

/-- Moving such a name. -/
theorem Named.moveAlias {s : Storage} (h : Named s) {name : Blob} (hne : name ≠ [])
    (history : List AliasInfoBase) : Named (moveAlias s name history) where
  keys := (FinMap.getElem?_insert_ne (Ne.symm hne)).trans h.keys
  values addr hget := by
    by_cases hnew : ∀ l, history.getLast? = some l → addr ≠ l.mAddress
    · by_cases hold : ∀ last, getAliasInfo s name = some last → addr ≠ last.mAddress
      · rw [mAddrToAlias_moveAlias_of_ne hold hnew] at hget
        exact h.values addr hget
      · push Not at hold
        obtain ⟨last, hlast, rfl⟩ := hold
        rw [mAddrToAlias_moveAlias_of_old hlast hnew] at hget
        cases hget
    · push Not at hnew
      obtain ⟨l, hl, rfl⟩ := hnew
      rw [mAddrToAlias_moveAlias_of_new hl] at hget
      exact hne (Option.some.inj hget)

/-- Filling the map anew touches no history. -/
theorem Named.restart {s : Storage} (h : Named s) :
    Named (fillAddrToAliasDict { s with mAddrToAlias := ∅ }) where
  keys := h.keys
  values addr hget := by
    rcases (foldl_fillEntry s.mAliases.toList ∅ addr).1 [] hget with ⟨⟨name, history⟩, hmem, hname, -⟩ |
        hnone
    · rw [Std.ExtTreeMap.mem_toList_iff_getElem?_eq_some, show name = [] from hname, h.keys] at hmem
      cases hmem
    · rw [Std.ExtTreeMap.getElem?_empty] at hnone
      cases hnone

/-- Every operation keeps names from being empty. -/
theorem Named.aliasStep {env : Env} {s : Storage} (h : Named s) (op : AliasOp) :
    Named (aliasStep env s op) := by
  cases op with
  | put ai =>
    show Named (putAliasInfo env ai s).2
    by_cases hne : ai.mAlias = []
    · rw [putAliasInfo, if_pos hne]
      exact h
    · by_cases hgrant : nameGranted env (aliasHistory s ai.mAlias) ai = true
      · rw [putAliasInfo_granted hne hgrant]
        exact h.moveAlias hne _
      · rw [putAliasInfo_false hne ((putAliasInfo_fst hne s).trans (Bool.eq_false_iff.2 hgrant))]
        exact h.setHistory hne _
  | pop ai =>
    show Named (popAliasInfo ai s).2
    by_cases hne : ai.mAlias = []
    · rw [popAliasInfo, if_pos hne]
      exact h
    · rw [popAliasInfo_eq hne]
      split
      · exact h.setHistory hne _
      · exact h.moveAlias hne _
  | restart => exact h.restart

/-! ## Runs -/

/-- Every operation of the run is safe where it happens. -/
def SafeRun (env : Env) (s : Storage) : List AliasOp → Prop
  | [] => True
  | op :: ops => op.Safe env s ∧ SafeRun env (aliasStep env s op) ops

/-- The views agree all along a run just when every operation is safe. -/
theorem viewsAgree_run_iff {env : Env} {s : Storage} (hn : Named s) (h : Faithful s)
    (ops : List AliasOp) :
    (∀ k, k ≤ ops.length → ViewsAgree (aliasRun env s (ops.take k))) ↔ SafeRun env s ops := by
  induction ops generalizing s with
  | nil =>
    refine ⟨fun _ => trivial, fun _ k _ => ?_⟩
    rw [List.take_nil]
    exact (viewsAgree_iff hn).2 h
  | cons op ops ih =>
    have hn' : Named (aliasStep env s op) := hn.aliasStep op
    constructor
    · intro hall
      -- the views agree after the first operation, so it was safe
      have hfirst : ViewsAgree (aliasStep env s op) :=
        hall 1 (Nat.succ_le_succ (Nat.zero_le _))
      have h' := (viewsAgree_iff hn').1 hfirst
      refine ⟨(faithful_aliasStep_iff h op).1 h', (ih hn' h').1 ?_⟩
      intro k hk
      exact hall (k + 1) (Nat.succ_le_succ hk)
    · rintro ⟨hsafe, hrest⟩ k hk
      have h' := (faithful_aliasStep_iff h op).2 hsafe
      cases k with
      | zero => exact (viewsAgree_iff hn).2 h
      | succ k => exact (ih hn' h').2 hrest k (Nat.le_of_succ_le_succ hk)

/-- From an empty registry on, the views agree in every state of a run exactly
when every operation of it is safe where it is made. -/
theorem alias_views_agree_iff (env : Env) (checkpoints : Checkpoints) (ops : List AliasOp) :
    (∀ k, k ≤ ops.length → ViewsAgree (aliasRun env (Storage.empty checkpoints) (ops.take k))) ↔
      SafeRun env (Storage.empty checkpoints) ops := by
  refine viewsAgree_run_iff ⟨?_, ?_⟩ ⟨?_, ?_, ?_⟩ ops
  · exact Std.ExtTreeMap.getElem?_empty
  · intro addr hget
    rw [show (Storage.empty checkpoints).mAddrToAlias[addr]? = none from
      Std.ExtTreeMap.getElem?_empty] at hget
    cases hget
  · intro name history hget
    rw [show (Storage.empty checkpoints).mAliases[name]? = none from
      Std.ExtTreeMap.getElem?_empty] at hget
    cases hget
  · intro addr name hget
    rw [show (Storage.empty checkpoints).mAddrToAlias[addr]? = none from
      Std.ExtTreeMap.getElem?_empty] at hget
    cases hget
  · rintro name addr ⟨info, hinfo, -⟩
    rw [getAliasInfo, show (Storage.empty checkpoints).mAliases[name]? = none from
      Std.ExtTreeMap.getElem?_empty] at hinfo
    cases hinfo

namespace Devnet

/-- An entry of a name for the address with the spend key `key`. -/
def aliasFor (name : UInt8) (key : PublicKey) (sign : Signature) : AliasInfo where
  mAddress := ⟨key, key⟩
  mViewKey := 0
  mSign := sign
  mTextComment := []
  mAlias := [name]

/-- Two names are registered for one address, then the second one moves away. -/
def sharedAddress : List AliasOp :=
  [.put (aliasFor 97 1 nullSig), .put (aliasFor 98 1 nullSig), .put (aliasFor 98 2 1)]

end Devnet

/-- Two names for one address: one goes, and the other is not found by address any more. -/
theorem shared_address_loses_its_name :
    ¬ ViewsAgree (aliasRun Devnet.env (Storage.empty ∅) Devnet.sharedAddress) := by
  intro h
  have eval :
      getAliasByAddress (aliasRun Devnet.env (Storage.empty ∅) Devnet.sharedAddress) ⟨1, 1⟩ = [] ∧
      (getAliasInfo (aliasRun Devnet.env (Storage.empty ∅) Devnet.sharedAddress) [97]).map
        (·.mAddress) = some ⟨1, 1⟩ := by
    decide +kernel
  obtain ⟨hby, hinfo⟩ := eval
  obtain ⟨info, hget, haddr⟩ := Option.map_eq_some_iff.1 hinfo
  exact (h.byAddress ⟨1, 1⟩).2 ⟨[97], info, hget, haddr⟩ hby

end DarknetSpace
