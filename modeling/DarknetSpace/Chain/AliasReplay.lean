import DarknetSpace.Chain.Alias
import DarknetSpace.Core.Core
import Mathlib.Data.List.Induction

/-!
# Replaying an alias update

An update is signed by the key the name belongs to, over the name and the new data
and nothing else: no counter, no id of the entry it replaces. It can be put again
whenever the name belongs to a key its signature is good for. That is so at once if
the update leaves the name with the key that signed it, and again whenever a name
comes back to a former owner.

The key that decides is the spend key of the entry put last. So an update is good for
one time exactly if every accepted put hands the name to a key that no signature
accepted for that name so far, its own included, verifies under.
-/

namespace DarknetSpace

/-- The signature of the update `u` is good for `key`. -/
def updateVerifies (env : Env) (u : AliasInfo) (key : PublicKey) : Bool :=
  env.checkSignature (env.hashBlob (makeTxExtraAliasEntryToSign u)) key u.mSign

/-- Put the aliases one after another; `none` as soon as one is refused. -/
def putAliases (env : Env) : List AliasInfo → Storage → Option Storage
  | [], s => some s
  | ai :: rest, s =>
    if (putAliasInfo env ai s).1 then putAliases env rest (putAliasInfo env ai s).2 else none

/-- The key a name belongs to after the puts `ais`, if one of them was of that name. -/
def ownerKey (name : Blob) (ais : List AliasInfo) : Option PublicKey :=
  (ais.filter fun ai => ai.mAlias = name).getLast?.map fun ai => ai.mAddress.mSpendPublicKey

section

variable {env : Env} {s t : Storage}

theorem putAliases_append {pre post : List AliasInfo} (h : putAliases env (pre ++ post) s = some t) :
    ∃ mid, putAliases env pre s = some mid ∧ putAliases env post mid = some t := by
  induction pre generalizing s with
  | nil => exact ⟨s, rfl, h⟩
  | cons ai rest ih =>
    rw [List.cons_append, putAliases] at h
    rw [putAliases]
    split at h
    next hput =>
      rw [if_pos hput]
      exact ih h
    next => cases h

theorem putAliases_concat {pre : List AliasInfo} {ai : AliasInfo}
    (h : putAliases env (pre ++ [ai]) s = some t) :
    ∃ mid, putAliases env pre s = some mid ∧ (putAliasInfo env ai mid).1 = true ∧
      (putAliasInfo env ai mid).2 = t := by
  obtain ⟨mid, hpre, hlast⟩ := putAliases_append h
  refine ⟨mid, hpre, ?_⟩
  rw [putAliases] at hlast
  split at hlast
  next hput => exact ⟨hput, Option.some.inj hlast⟩
  next => cases hlast

theorem putAliases_named {ais : List AliasInfo} (h : putAliases env ais s = some t) :
    ∀ u ∈ ais, u.mAlias ≠ [] := by
  induction ais generalizing s with
  | nil =>
    intro u hu
    cases hu
  | cons ai rest ih =>
    rw [putAliases] at h
    split at h
    next hput =>
      intro u hu
      rcases List.mem_cons.1 hu with rfl | hu
      · exact (putAliasInfo_true hput).1
      · exact ih h u hu
    next => cases h

theorem ownerKey_concat_same {pre : List AliasInfo} {ai : AliasInfo} {name : Blob}
    (h : ai.mAlias = name) : ownerKey name (pre ++ [ai]) = some ai.mAddress.mSpendPublicKey := by
  have hfilter : [ai].filter (fun a => a.mAlias = name) = [ai] := by simp [h]
  unfold ownerKey
  rw [List.filter_append, hfilter, List.getLast?_concat]
  rfl

theorem ownerKey_concat_other {pre : List AliasInfo} {ai : AliasInfo} {name : Blob}
    (h : ai.mAlias ≠ name) : ownerKey name (pre ++ [ai]) = ownerKey name pre := by
  have hfilter : [ai].filter (fun a => a.mAlias = name) = [] := by simp [h]
  unfold ownerKey
  rw [List.filter_append, hfilter, List.append_nil]

/-- An update is accepted by the key of the last entry. -/
theorem putAliasInfo_update {u : AliasInfo} {last : AliasInfoBase} (hname : u.mAlias ≠ [])
    (hsign : u.mSign ≠ nullSig) (hlast : (aliasHistory s u.mAlias).getLast? = some last) :
    (putAliasInfo env u s).1 = updateVerifies env u last.mAddress.mSpendPublicKey := by
  unfold putAliasInfo updateVerifies
  rw [if_neg hname]
  simp only [hlast]
  rw [if_neg hsign]
  split
  next hcheck => exact hcheck.symm
  next hcheck => exact (Bool.not_eq_true _ ▸ hcheck).symm

/-- The last entry of a name is the last one put. -/
theorem history_after_puts {ais : List AliasInfo} {name : Blob} {key : PublicKey}
    (h : putAliases env ais s = some t) (hkey : ownerKey name ais = some key) :
    ∃ last, (aliasHistory t name).getLast? = some last ∧ last.mAddress.mSpendPublicKey = key := by
  induction ais using List.reverseRecOn generalizing t with
  | nil => cases hkey
  | append_singleton pre ai ih =>
    obtain ⟨mid, hpre, hput, rfl⟩ := putAliases_concat h
    rw [(putAliasInfo_true hput).2]
    by_cases hsame : ai.mAlias = name
    · rw [ownerKey_concat_same hsame] at hkey
      refine ⟨ai.toAliasInfoBase, ?_, Option.some.inj hkey⟩
      simp [aliasHistory, hsame]
    · rw [ownerKey_concat_other hsame] at hkey
      obtain ⟨last, hlast, hkey'⟩ := ih hpre hkey
      refine ⟨last, ?_, hkey'⟩
      unfold aliasHistory at hlast ⊢
      rw [Std.ExtTreeMap.getD_insert, if_neg (by simpa using hsame)]
      exact hlast

/-- A name that has been put belongs to the last one put. -/
theorem exists_ownerKey {ais : List AliasInfo} {u : AliasInfo} (hu : u ∈ ais) :
    ∃ pre a post, ais = pre ++ a :: post ∧ a.mAlias = u.mAlias ∧ u ∈ pre ++ [a] ∧
      ownerKey u.mAlias ais = some a.mAddress.mSpendPublicKey := by
  induction ais using List.reverseRecOn with
  | nil => cases hu
  | append_singleton rest ai ih =>
    by_cases hsame : ai.mAlias = u.mAlias
    · exact ⟨rest, ai, [], rfl, hsame, hu, ownerKey_concat_same hsame⟩
    · have hrest : u ∈ rest := by
        rcases List.mem_append.1 hu with hu | hu
        · exact hu
        · exact absurd (congrArg AliasInfo.mAlias (List.mem_singleton.1 hu)).symm hsame
      obtain ⟨pre, a, post, rfl, ha, hmem, hkey⟩ := ih hrest
      exact ⟨pre, a, post ++ [ai], by simp, ha, hmem, (ownerKey_concat_other hsame).trans hkey⟩

end

/-- In a run of accepted puts no update that has been accepted is accepted once more,
exactly if every put hands the name to a key under which no update accepted for that
name so far verifies. -/
theorem alias_updates_once_iff {env : Env} {s t : Storage} {ais : List AliasInfo}
    (hrun : putAliases env ais s = some t) :
    (∀ pre post mid, ais = pre ++ post → putAliases env pre s = some mid →
      ∀ u ∈ pre, u.mSign ≠ nullSig → (putAliasInfo env u mid).1 = false) ↔
    ∀ pre a post, ais = pre ++ a :: post → ∀ u ∈ pre ++ [a], u.mAlias = a.mAlias →
      u.mSign ≠ nullSig → updateVerifies env u a.mAddress.mSpendPublicKey = false := by
  have hnamed := putAliases_named hrun
  constructor
  · intro honce pre a post hais u hu hname hsign
    have hais' : ais = (pre ++ [a]) ++ post := by rw [hais, List.append_assoc]; rfl
    obtain ⟨mid, hmid, -⟩ := putAliases_append (hais' ▸ hrun)
    obtain ⟨last, hlast, hlastKey⟩ := history_after_puts hmid (ownerKey_concat_same hname.symm)
    have hne : u.mAlias ≠ [] := hnamed u (hais' ▸ List.mem_append_left _ hu)
    rw [← hlastKey, ← putAliasInfo_update hne hsign hlast]
    exact honce _ _ mid hais' hmid u hu hsign
  · intro hfresh pre post mid hais hmid u hu hsign
    have hne : u.mAlias ≠ [] := hnamed u (hais ▸ List.mem_append_left _ hu)
    obtain ⟨pre', a, post', rfl, hname, hmem, hkey⟩ := exists_ownerKey hu
    obtain ⟨last, hlast, hlastKey⟩ := history_after_puts hmid hkey
    rw [putAliasInfo_update hne hsign hlast, hlastKey]
    exact hfresh pre' a (post' ++ post) (by rw [hais]; simp) u hmem hname.symm hsign

namespace Devnet

/-- A network where the signature of a key is the number of that key. -/
def signing : Env := { env with checkSignature := fun _ key sign => sign.toNat == key.toNat }

/-- The name `ab` goes to `key`, signed by `signer`; nobody signs a registration. -/
def handOver (key : PublicKey) (signer : Nat) : AliasInfo :=
  { AliasInfo.empty with
    mAlias := [97, 98]
    mAddress := ⟨key, 0⟩
    mSign := BitVec.ofNat 512 signer }

end Devnet

/-- A name that goes from key 1 to key 2: the transfer is good for one time. -/
theorem alias_updates_once_iff_devnet :
    ∃ t, putAliases Devnet.signing [Devnet.handOver 1 0, Devnet.handOver 2 1] (.empty ∅) = some t ∧
      (putAliasInfo Devnet.signing (Devnet.handOver 2 1) t).1 = false := by
  have eval :
      (putAliases Devnet.signing [Devnet.handOver 1 0, Devnet.handOver 2 1] (.empty ∅)).isSome ∧
      updateVerifies Devnet.signing (Devnet.handOver 2 1) 2 = false ∧
      (Devnet.handOver 1 0).mSign = nullSig ∧ (Devnet.handOver 2 1).mSign ≠ nullSig := by
    decide +kernel
  obtain ⟨hsome, hverifies, hnull, hsigned⟩ := eval
  obtain ⟨t, ht⟩ := Option.isSome_iff_exists.1 hsome
  refine ⟨t, ht, (alias_updates_once_iff ht).2 ?_ _ [] t rfl ht _ (by simp) hsigned⟩
  intro pre a post hais u hu _ hsign
  have hmem : u ∈ [Devnet.handOver 1 0, Devnet.handOver 2 1] := by
    rw [hais]
    rcases List.mem_append.1 hu with hu | hu
    · exact List.mem_append_left _ hu
    · exact List.mem_append_right _ (List.mem_singleton.1 hu ▸ List.mem_cons_self)
  rcases List.mem_cons.1 hmem with rfl | hmem
  · exact absurd hnull hsign
  · -- the transfer itself, so it is the last put
    cases List.mem_singleton.1 hmem
    match pre with
    | [] =>
      obtain ⟨rfl, -⟩ := List.cons.inj hais
      cases List.mem_singleton.1 hu
    | [x] =>
      obtain ⟨rfl, hrest⟩ := List.cons.inj hais
      obtain ⟨rfl, -⟩ := List.cons.inj hrest
      exact hverifies
    | x :: y :: rest => simp at hais

/-- From key 1 to key 2 and back: anybody can put the first transfer again. -/
theorem alias_transfer_replayed :
    ∃ t, putAliases Devnet.signing
        [Devnet.handOver 1 0, Devnet.handOver 2 1, Devnet.handOver 1 2] (.empty ∅) = some t ∧
      (Devnet.handOver 2 1).mSign ≠ nullSig ∧
      (putAliasInfo Devnet.signing (Devnet.handOver 2 1) t).1 = true := by
  have eval :
      ((putAliases Devnet.signing
        [Devnet.handOver 1 0, Devnet.handOver 2 1, Devnet.handOver 1 2] (.empty ∅)).any fun t =>
          (putAliasInfo Devnet.signing (Devnet.handOver 2 1) t).1) = true ∧
      (Devnet.handOver 2 1).mSign ≠ nullSig := by
    decide +kernel
  obtain ⟨hany, hsigned⟩ := eval
  obtain ⟨t, ht, hput⟩ := (Option.any_eq_true _ _).1 hany
  exact ⟨t, ht, hsigned, hput⟩

end DarknetSpace
