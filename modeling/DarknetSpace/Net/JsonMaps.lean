import DarknetSpace.Net.JsonTrip

/-!
# Structures as JSON

A structure with a `KV` map is stored as a section, and loaded from what is left of it
after the way through JSON. The integers come back in a wide type and are converted to
the type of the member, which takes them because they came from it; an empty container
is not there any more, and loading leaves a container empty that it finds nothing for.

`Kind.SpeaksJson` says of a member that it is loaded as it was stored, and each kind of
member has a lemma: numbers, strings, what is kept as bytes, lists of strings, sections
and lists of sections. Lists of integers are not among them, since their elements are
`int64` afterwards and are not converted; nor is a `bool`, of which only zero and one
come back. `Plain` is the kinds that are, and `loadTFromJson_storeTToJson` is the round
trip for every map of plain members.
-/

namespace DarknetSpace.PortableStorage

/-! ## Structures as JSON -/

/-- If every entry leaves something, a name is found as before, with what reading makes of its
entry. -/
theorem asJsonEntries_finds {entries : Section}
    (h : ∀ pair ∈ entries, ∃ e, asJson pair.2 = some (some e)) :
    ∃ found, asJsonEntries entries = some found ∧
      ∀ name, findStorageEntry name found =
        (findStorageEntry name entries).bind fun e => (asJson e).getD none := by
  induction entries with
  | nil => exact ⟨[], rfl, fun _ => rfl⟩
  | cons head entries ih =>
    obtain ⟨name', e⟩ := head
    obtain ⟨⟨e', he⟩, hentries⟩ := List.forall_mem_cons.1 h
    obtain ⟨found, hfound, hfind⟩ := ih hentries
    have he : asJson e = some (some e') := he
    refine ⟨(name', e') :: found, ?_, fun name => ?_⟩
    · rw [asJsonEntries, he, hfound]
      rfl
    · unfold findStorageEntry
      by_cases hname : name' = name
      · rw [if_pos hname, if_pos hname, Option.bind_some, he]
        rfl
      · rw [if_neg hname, if_neg hname]
        exact hfind name

/-- Entries that are ordinary one by one. -/
theorem ordinaryEntries_of {entries : Section} (h : ∀ pair ∈ entries, Ordinary pair.2) :
    OrdinaryEntries entries := by
  induction entries with
  | nil => trivial
  | cons head entries ih =>
    obtain ⟨hhead, hentries⟩ := List.forall_mem_cons.1 h
    exact ⟨hhead, ih hentries⟩

/-- What a member stores comes back from a text. -/
def Kind.SpeaksJson {β : Type} (k : Kind β) : Prop :=
  ∀ x e, k.toEntry x = some e →
    Ordinary e ∧ ∃ e', asJson e = some (some e') ∧ ∀ old, k.ofEntry (some e') old = (x, true)

/-- Every field of the structure survives the text. -/
def KvMap.SpeaksJson {σ : Type} (m : KvMap σ) : Prop := ∀ f ∈ m.fields, f.kind.SpeaksJson

namespace KvMap

variable {σ : Type} {d : DoubleText}

theorem SpeaksJson.ordinary {m : KvMap σ} (h : m.SpeaksJson) (x : σ) :
    Ordinary (.object (m.store x [])) := by
  refine ⟨sorted_foldl x m.fields .nil, ordinaryEntries_of fun pair hpair => ?_⟩
  rcases mem_foldl x hpair with hnil | ⟨f, hf, hentry⟩
  · exact absurd hnil List.not_mem_nil
  · exact (h f hf _ _ hentry).1

/-- A stored structure is loaded from what is left of it. -/
theorem SpeaksJson.loads {m : KvMap σ} (h : m.SpeaksJson) (x : σ) :
    ∃ found, asJsonEntries (m.store x []) = some found ∧ ∀ old, m.load found old = (x, true) := by
  have heach : ∀ pair ∈ m.store x [], ∃ e, asJson pair.2 = some (some e) := by
    intro pair hpair
    rcases mem_foldl x hpair with hnil | ⟨f, hf, hentry⟩
    · exact absurd hnil List.not_mem_nil
    · obtain ⟨-, e, he, -⟩ := h f hf _ _ hentry
      exact ⟨e, he⟩
  obtain ⟨found, hfound, hfind⟩ := asJsonEntries_finds heach
  refine ⟨found, hfound, fun old => ?_⟩
  rw [load, loadFields_of found x (fun f hf old => ?_), m.whole]
  rw [hfind, show findStorageEntry f.name (m.store x []) = f.kind.toEntry (f.get x) from
    (find_foldl x m.distinct []).2 f hf rfl]
  cases hentry : f.kind.toEntry (f.get x) with
  | none =>
    have hback := f.kind.back (f.get x) old
    rw [hentry] at hback
    exact hback
  | some e =>
    obtain ⟨-, e', he, hback⟩ := h f hf _ _ hentry
    rw [Option.bind_some, he]
    exact hback old

end KvMap

namespace Kind

variable {β γ σ : Type}

theorem ofInt_value (t : PodType) (v : Pod t) : BitVec.ofInt (8 * t.size) (t.value v) = v := by
  unfold PodType.value
  by_cases hsigned : t.isSigned
  · rw [if_pos hsigned, BitVec.ofInt_toInt]
  · rw [if_neg hsigned, BitVec.ofInt_natCast, BitVec.ofNat_toNat, BitVec.setWidth_eq]

/-- The value of a number lies within its type. -/
theorem value_within (t : PodType) (v : Pod t) : t.lowest ≤ t.value v ∧ t.value v ≤ t.highest := by
  unfold PodType.lowest PodType.highest PodType.value
  by_cases hsigned : t.isSigned
  · rw [if_pos hsigned, if_pos hsigned, if_pos hsigned]
    have hlow := BitVec.le_toInt v
    have hhigh := BitVec.toInt_le (x := v)
    exact ⟨hlow, hhigh⟩
  · rw [if_neg hsigned, if_neg hsigned, if_neg hsigned]
    have := v.isLt
    constructor
    · omega
    · have hcast : ((v.toNat : Nat) : Int) < ((2 ^ (8 * t.size) : Nat) : Int) := by
        exact_mod_cast this
      push_cast at hcast
      omega

/-- A number read in a wide type converts back, as its value is one of the narrow type. -/
theorem convertT_wide {t wide : PodType} (hintegral : t.isIntegral) (hwide : wide.isIntegral)
    (v : Pod t) (w : Pod wide) (h : wide.value w = t.value v) : convertT w t = some v := by
  unfold convertT
  by_cases heq : wide = t
  · subst heq
    rw [dif_pos rfl]
    show some w = some v
    rw [← ofInt_value wide w, h, ofInt_value]
  · obtain ⟨hlow, hhigh⟩ := value_within t v
    rw [dif_neg heq, if_neg (not_not.2 ⟨hwide, hintegral⟩), h, if_neg (not_not.2 ⟨hlow, hhigh⟩),
      ofInt_value]

theorem ofEntry_pod {t wide : PodType} {v : Pod t} {w : Pod wide} (h : convertT w t = some v)
    (old : Pod t) : (pod t).ofEntry (some (.pod wide w)) old = (v, true) := by
  unfold pod
  simp only [h]

/-- An integer field survives. -/
theorem speaksJson_pod {t : PodType} (hintegral : t.isIntegral) : (pod t).SpeaksJson := by
  intro v e h
  cases h
  have hdouble : t ≠ .double := by
    rintro rfl
    cases hintegral
  have hbool : t ≠ .bool := by
    rintro rfl
    cases hintegral
  obtain ⟨hlow, hhigh⟩ := value_range t v
  refine ⟨hdouble, asJsonPod t v, rfl, fun old => ?_⟩
  rw [asJsonPod_integer hbool]
  -- the negative ones come back as `int64_t`, the others as `uint64_t`
  by_cases hneg : t.value v < 0
  · rw [if_pos hneg]
    have hvalue := value_int64 hlow (show t.value v < 2 ^ 63 by omega)
    exact ofEntry_pod (convertT_wide hintegral rfl v _ hvalue) old
  · rw [if_neg hneg]
    have hvalue := value_uint64 (Int.not_lt.1 hneg) hhigh
    exact ofEntry_pod (convertT_wide hintegral rfl v _ hvalue) old

/-- What is read is what was written. -/
theorem speaksJson_of_same {k : Kind β}
    (h : ∀ x e, k.toEntry x = some e → Ordinary e ∧ asJson e = some (some e)) : k.SpeaksJson := by
  intro x e hentry
  obtain ⟨hordinary, hsame⟩ := h x e hentry
  refine ⟨hordinary, e, hsame, fun old => ?_⟩
  rw [← hentry]
  exact k.back x old

theorem speaksJson_string : string.SpeaksJson := by
  refine speaksJson_of_same fun x e h => ?_
  cases h
  exact ⟨trivial, rfl⟩

/-- A field in another guise survives when the field does. -/
theorem SpeaksJson.iso {k : Kind β} (hk : k.SpeaksJson) (f : β → γ) (g : γ → β)
    (h : ∀ x, f (g x) = x) : (k.iso f g h).SpeaksJson := by
  intro x e hentry
  obtain ⟨hordinary, e', hread, hback⟩ := hk (g x) e hentry
  refine ⟨hordinary, e', hread, fun old => ?_⟩
  show ((k.ofEntry (some e') (g old)).map f id) = (x, true)
  rw [hback]
  exact congrArg (·, true) (h x)

theorem speaksJson_podAsBlob {size : Nat} {toBytes : β → Blob} {ofBytes : Blob → β}
    (hlen : ∀ x, (toBytes x).length = size) (h : ∀ x, ofBytes (toBytes x) = x) :
    (podAsBlob size toBytes ofBytes hlen h).SpeaksJson := by
  refine speaksJson_of_same fun x e hentry => ?_
  cases hentry
  exact ⟨trivial, rfl⟩

/-- A list of PODs written as one string survives. -/
theorem speaksJson_containerPodAsBlob {size : Nat} {hsize : 0 < size} {toBytes : β → Blob}
    {ofBytes : Blob → β} (hlen : ∀ x, (toBytes x).length = size)
    (h : ∀ x, ofBytes (toBytes x) = x) :
    (containerPodAsBlob size hsize toBytes ofBytes hlen h).SpeaksJson := by
  refine speaksJson_of_same fun xs e hentry => ?_
  cases xs with
  | nil => cases hentry
  | cons x xs =>
    cases hentry
    exact ⟨trivial, rfl⟩

/-- A list of strings survives; an empty one is not stored at all. -/
theorem speaksJson_strings : strings.SpeaksJson := by
  refine speaksJson_of_same fun ss e hentry => ?_
  cases ss with
  | nil => cases hentry
  | cons s ss =>
    cases hentry
    refine ⟨trivial, ?_⟩
    unfold asJson asJsonArray
    rw [mapM_some]
    rfl

/-- A structure within the structure survives. -/
theorem speaksJson_object {m : KvMap σ} (h : m.SpeaksJson) : (object m).SpeaksJson := by
  intro x e hentry
  cases hentry
  obtain ⟨found, hfound, hload⟩ := h.loads x
  refine ⟨h.ordinary x, .object found, ?_, hload⟩
  unfold asJson
  rw [hfound]
  rfl

/-- A list of structures survives. -/
theorem speaksJson_objects {m : KvMap σ} (h : m.SpeaksJson) (new : σ) :
    (objects m new).SpeaksJson := by
  intro xs e hentry
  have hordinary : ∀ ys : List σ, OrdinaryObjects (ys.map fun y => m.store y []) := by
    intro ys
    induction ys with
    | nil => trivial
    | cons y ys ih => exact ⟨h.ordinary y, ih⟩
  have hloads : ∀ ys : List σ, ∃ ss, (ys.map fun y => m.store y []).mapM asJsonEntries = some ss ∧
      ss.length = ys.length ∧ loadSections m new ss = (ys, true) := by
    intro ys
    induction ys with
    | nil => exact ⟨[], rfl, rfl, rfl⟩
    | cons y ys ih =>
      obtain ⟨s, hs, hload⟩ := h.loads y
      obtain ⟨ss, hss, hlen, hloads⟩ := ih
      refine ⟨s :: ss, ?_, congrArg Nat.succ hlen, ?_⟩
      · rw [List.map_cons, mapM_cons_some _ hs, hss]
        rfl
      · rw [loadSections, hload, hloads]
        rfl
  cases xs with
  | nil => cases hentry
  | cons x xs =>
    cases hentry
    obtain ⟨ss, hss, hlen, hload⟩ := hloads (x :: xs)
    refine ⟨hordinary (x :: xs), .array (.objects ss), ?_, fun _ => hload⟩
    unfold asJson asJsonArray
    rw [asJsonObjects_eq, hss]
    cases ss with
    | nil => cases hlen
    | cons s ss => rfl

/-- The kinds of members that a text does justice to. -/
inductive Plain : {β : Type} → Kind β → Prop
  | pod {t : PodType} : t.isIntegral → Plain (pod t)
  | string : Plain string
  | iso {β γ : Type} {k : Kind β} {f : β → γ} {g : γ → β} {h : ∀ x, f (g x) = x} :
    Plain k → Plain (k.iso f g h)
  | podAsBlob {β : Type} {size : Nat} {toBytes : β → Blob} {ofBytes : Blob → β}
    {hlen : ∀ x, (toBytes x).length = size} {h : ∀ x, ofBytes (toBytes x) = x} :
    Plain (podAsBlob size toBytes ofBytes hlen h)
  | containerPodAsBlob {β : Type} {size : Nat} {hsize : 0 < size} {toBytes : β → Blob}
    {ofBytes : Blob → β} {hlen : ∀ x, (toBytes x).length = size}
    {h : ∀ x, ofBytes (toBytes x) = x} :
    Plain (containerPodAsBlob size hsize toBytes ofBytes hlen h)
  | strings : Plain strings
  | object {σ : Type} {m : KvMap σ} : (∀ f ∈ m.fields, Plain f.kind) → Plain (object m)
  | objects {σ : Type} {m : KvMap σ} {new : σ} :
    (∀ f ∈ m.fields, Plain f.kind) → Plain (objects m new)

/-- A plain field survives the text: by induction on how it is built. -/
theorem Plain.speaksJson {k : Kind β} (h : k.Plain) : k.SpeaksJson := by
  induction h with
  | pod hintegral => exact speaksJson_pod hintegral
  | string => exact speaksJson_string
  | iso _ ih => exact ih.iso _ _ _
  | podAsBlob => exact speaksJson_podAsBlob _ _
  | containerPodAsBlob => exact speaksJson_containerPodAsBlob _ _
  | strings => exact speaksJson_strings
  | object _ ih => exact speaksJson_object ih
  | objects _ ih => exact speaksJson_objects ih _

end Kind

namespace KvMap

variable {σ : Type} {d : DoubleText}

/-- `store_t_to_json`. -/
def storeTToJson (d : DoubleText) (m : KvMap σ) (x : σ) (indent : Nat) : Blob :=
  dumpAsJson d (m.store x []) indent

/-- `load_t_from_json`, into `out`. -/
def loadTFromJson (d : DoubleText) (m : KvMap σ) (out : σ) (jsonBuff : Blob) : Loaded σ :=
  match loadFromJson d jsonBuff with
  | none => (out, false)
  | some root => m.load root out

/-- All fields of the structure are plain. -/
def Plain (m : KvMap σ) : Prop := ∀ f ∈ m.fields, f.kind.Plain

theorem Plain.speaksJson {m : KvMap σ} (h : m.Plain) : m.SpeaksJson :=
  fun f hf => (h f hf).speaksJson

/-- The structure as it was stored, out of its text, whatever follows. -/
theorem loadTFromJson_storeTToJson {m : KvMap σ} (h : m.Plain) (x out : σ) (indent : Nat)
    (rest : Blob) : m.loadTFromJson d out (m.storeTToJson d x indent ++ rest) = (x, true) := by
  obtain ⟨found, hfound, hload⟩ := h.speaksJson.loads x
  unfold loadTFromJson storeTToJson
  rw [loadFromJson_dumpAsJson (h.speaksJson.ordinary x), hfound]
  exact hload out

end KvMap

end DarknetSpace.PortableStorage

namespace DarknetSpace.PortableStorage.Kind

/-- A `uint64_t` field. -/
theorem plain_uint64 : uint64.Plain := .iso (.pod rfl)

/-- A `uint32_t` field. -/
theorem plain_uint32 : uint32.Plain := .iso (.pod rfl)

/-- A `uint8_t` field. -/
theorem plain_uint8 : uint8.Plain := .iso (.pod rfl)

/-- An `int64_t` field. -/
theorem plain_int64 : int64.Plain := .iso (.pod rfl)

end DarknetSpace.PortableStorage.Kind

namespace DarknetSpace.Nodetool

open PortableStorage

/-- `alert_condition` has integers and a string. -/
theorem AlertCondition.plain : AlertCondition.kvMap.Plain := by
  intro f hf
  simp only [AlertCondition.kvMap, List.mem_cons, List.not_mem_nil, or_false] at hf
  rcases hf with rfl | rfl
  · exact Kind.plain_uint32
  · exact Kind.plain_uint8

/-- The file that the maintainers' tool loads has every member in it. -/
theorem MaintainersInfo.plain : MaintainersInfo.kvMap.Plain := by
  intro f hf
  simp only [MaintainersInfo.kvMap, List.mem_cons, List.not_mem_nil, or_false] at hf
  rcases hf with rfl | rfl | rfl | rfl | rfl | rfl
  · exact Kind.plain_uint64
  · exact Kind.plain_uint8
  · exact Kind.plain_uint8
  · exact Kind.plain_uint8
  · exact Kind.plain_uint32
  · exact .objects AlertCondition.plain

theorem loadTFromJson_storeTToJson_maintainers :
    MaintainersInfo.kvMap.loadTFromJson noDoubles default
      (MaintainersInfo.kvMap.storeTToJson noDoubles ⟨1, 0, 1, 0, 7, [⟨6, 2⟩]⟩ 0 ++ []) =
        (⟨1, 0, 1, 0, 7, [⟨6, 2⟩]⟩, true) :=
  KvMap.loadTFromJson_storeTToJson MaintainersInfo.plain _ _ 0 []

end DarknetSpace.Nodetool
