import DarknetSpace.Format.PadRuns
import DarknetSpace.Chain.Switch
import DarknetSpace.Chain.Frame

/-!
# The scratchpad an alternative block sees

The proof of work of an alternative block reads the scratchpad as it will be
after a switch, without switching: the main scratchpad below the split, with
what the disconnected blocks wrote there xored out again, then the alternative
blocks' own addenda, all of it under the alternative blocks' patches. Here that
view is shown to be the scratchpad the switch would make: pop the main blocks
down to the split, push the alternative ones.

`linePatch` is what a row of blocks does to the entries below it, put together as one
patch, and `PadPushed` the pushes one by one. The loops of the source build three
patches and merge them; xor does not care for the order (`getD_mergePatches`), and what
is merged twice is gone. Main result: `altScratchpadAt_eq`, at every index.
-/

namespace DarknetSpace

/-- The entries of `es`, each pushed where its `scratch_offset` says. -/
inductive PadPushed (env : Env) : List Hash → List BlockEntry → List Hash → Prop where
  | nil {pad : List Hash} : PadPushed env pad [] pad
  | cons {pad pad₁ pad' : List Hash} {e : BlockEntry} {rest : List BlockEntry}
      (offset : e.scratchOffset = pad.length)
      (push : pushBlockScratchpadData env e.bl pad = .ok pad₁)
      (tail : PadPushed env pad₁ rest pad') : PadPushed env pad (e :: rest) pad'

/-- Every block has a complete addendum. -/
def AllComplete (env : Env) (es : List BlockEntry) : Prop := ∀ e ∈ es, AddendumComplete env e.bl

instance (env : Env) (es : List BlockEntry) : Decidable (AllComplete env es) :=
  inferInstanceAs (Decidable (∀ e ∈ es, AddendumComplete env e.bl))

/-- A block's addendum, as far as it got. -/
def addendumOf (env : Env) (b : Block) : List Hash :=
  match getBlockScratchpadAddendum env b with
  | .ok (_, addendum) => addendum
  | .error _ => []

/-- The addenda of the entries, and their patches laid over `patch`. -/
def lineAddenda (env : Env) (es : List BlockEntry) : List Hash :=
  es.flatMap fun e => addendumOf env e.bl

def linePatch (env : Env) (es : List BlockEntry) (patch : ScratchpadPatch) : ScratchpadPatch :=
  es.foldl (fun p e => getScratchpadPatch e.scratchOffset (addendumOf env e.bl) p) patch

section

variable {env : Env}

theorem AddendumComplete.eq_addendumOf {b : Block} (h : AddendumComplete env b) :
    getBlockScratchpadAddendum env b = .ok (true, addendumOf env b) := by
  obtain ⟨addendum, ha, -⟩ := h.addendum
  unfold addendumOf
  rw [ha]

theorem AddendumComplete.addendumOf_ne_nil {b : Block} (h : AddendumComplete env b) :
    addendumOf env b ≠ [] := by
  obtain ⟨addendum, ha, hne⟩ := h.addendum
  unfold addendumOf
  rw [ha]
  exact hne

theorem AllComplete.cons {e : BlockEntry} {rest : List BlockEntry} (h : AllComplete env (e :: rest)) :
    AddendumComplete env e.bl ∧ AllComplete env rest :=
  List.forall_mem_cons.1 h

/-! ## The loops of `handle_alternative_block` -/

theorem altScratchpad_eq {es : List BlockEntry} (h : AllComplete env es) (pad : List Hash)
    (patch : ScratchpadPatch) :
    altScratchpad env es pad patch = .ok (pad ++ lineAddenda env es, linePatch env es patch) := by
  induction es generalizing pad patch with
  | nil => rw [lineAddenda, List.flatMap_nil, List.append_nil]; rfl
  | cons e rest ih =>
    obtain ⟨hc, hrest⟩ := h.cons
    unfold altScratchpad pushBlockScratchpadPatch
    rw [hc.eq_addendumOf]
    refine (ih hrest _ _).trans ?_
    rw [lineAddenda, lineAddenda, List.flatMap_cons, List.append_assoc]
    rfl

theorem mainLinePatches_eq {es : List BlockEntry} (h : AllComplete env es)
    (patch : ScratchpadPatch) :
    mainLinePatches env es patch = .ok (some (linePatch env es patch)) := by
  induction es generalizing patch with
  | nil => rfl
  | cons e rest ih =>
    obtain ⟨hc, hrest⟩ := h.cons
    unfold mainLinePatches
    rw [hc.eq_addendumOf]
    exact ih hrest _

/-! ## A run of pushes as one patch -/

theorem getD_linePatch (es : List BlockEntry) (patch : ScratchpadPatch) (i : Nat) :
    (linePatch env es patch).getD i 0 = patch.getD i 0 ^^^ (linePatch env es ∅).getD i 0 := by
  induction es generalizing patch with
  | nil =>
    rw [linePatch, linePatch, List.foldl_nil, List.foldl_nil, Std.ExtTreeMap.getD_empty]
    exact BitVec.xor_zero.symm
  | cons e rest ih =>
    have hstep : ∀ p, linePatch env (e :: rest) p =
        linePatch env rest (getScratchpadPatch e.scratchOffset (addendumOf env e.bl) p) :=
      fun _ => rfl
    rw [hstep, hstep, ih, ih (getScratchpadPatch _ _ ∅), getD_getScratchpadPatch, BitVec.xor_assoc]

/-- The scratchpad after a push of a complete addendum. -/
theorem eq_of_push {e : BlockEntry} {pad pad₁ : List Hash} (hc : AddendumComplete env e.bl)
    (hoff : e.scratchOffset = pad.length) (hp : pushBlockScratchpadData env e.bl pad = .ok pad₁) :
    pad₁ = applyScratchpadPatch (pad ++ addendumOf env e.bl)
      (getScratchpadPatch e.scratchOffset (addendumOf env e.bl) ∅) := by
  obtain ⟨r, addendum, ha, rfl⟩ := pushBlockScratchpadData_ok hp
  cases ha.symm.trans hc.eq_addendumOf
  rw [hoff]

/-- The old cells and the raw addenda, under the patches of the whole run. -/
theorem PadPushed.eq_applyPatch {es : List BlockEntry} {pad pad' : List Hash}
    (h : PadPushed env pad es pad') (hc : AllComplete env es) :
    pad' = applyScratchpadPatch (pad ++ lineAddenda env es) (linePatch env es ∅) := by
  induction h with
  | nil =>
    rw [lineAddenda, List.flatMap_nil, List.append_nil]
    exact (applyScratchpadPatch_empty _).symm
  | @cons pad pad₁ pad' e rest hoff hp _ ih =>
    obtain ⟨hce, hcrest⟩ := hc.cons
    have hin : ∀ i, (pad ++ addendumOf env e.bl).length ≤ i →
        (getScratchpadPatch e.scratchOffset (addendumOf env e.bl) ∅).getD i 0 = 0 := by
      intro i hi
      rw [List.length_append] at hi
      exact getD_getScratchpadPatch_of_le (by omega) _
    rw [ih hcrest, eq_of_push hce hoff hp, ← applyScratchpadPatch_append hin, List.append_assoc]
    -- the first block's patch, then those of the rest
    exact applyScratchpadPatch_apply (getD_linePatch rest _) _

theorem PadPushed.length {es : List BlockEntry} {pad pad' : List Hash}
    (h : PadPushed env pad es pad') (hc : AllComplete env es) :
    pad'.length = pad.length + (lineAddenda env es).length := by
  rw [h.eq_applyPatch hc, length_applyScratchpadPatch, List.length_append]

theorem PadPushed.push {es : List BlockEntry} {pad pad' : List Hash}
    (h : PadPushed env pad es pad') :
    pushBlocksScratchpadData env (es.map (·.bl)) pad = .ok pad' := by
  induction h with
  | nil => rfl
  | @cons pad pad₁ pad' e rest _ hp _ ih =>
    rw [List.map_cons]
    unfold pushBlocksScratchpadData
    rw [hp]
    exact ih

theorem PadPushed.append_inv {xs ys : List BlockEntry} {pad pad' : List Hash}
    (h : PadPushed env pad (xs ++ ys) pad') :
    ∃ mid, PadPushed env pad xs mid ∧ PadPushed env mid ys pad' := by
  induction xs generalizing pad with
  | nil => exact ⟨pad, .nil, h⟩
  | cons e rest ih =>
    cases h with
    | cons hoff hp htail =>
      obtain ⟨mid, hrest, hys⟩ := ih htail
      exact ⟨mid, .cons hoff hp hrest, hys⟩

theorem PadPushed.append {xs ys : List BlockEntry} {pad mid pad' : List Hash}
    (hxs : PadPushed env pad xs mid) (hys : PadPushed env mid ys pad') :
    PadPushed env pad (xs ++ ys) pad' := by
  induction hxs with
  | nil => exact hys
  | cons hoff hp _ ih => exact .cons hoff hp (ih hys)

/-- Flags of the blocks do not matter. -/
theorem PadPushed.congr {xs ys : List BlockEntry} {pad pad' : List Hash}
    (h : PadPushed env pad xs pad') (hf : forgetFlags ys = forgetFlags xs) :
    PadPushed env pad ys pad' := by
  induction h generalizing ys with
  | nil =>
    rw [List.map_eq_nil_iff.1 hf]
    exact .nil
  | @cons pad pad₁ pad' e rest hoff hp _ ih =>
    cases ys with
    | nil => cases hf
    | cons e' rest' =>
      obtain ⟨he, hrest⟩ := List.cons.inj hf
      have hbl : e'.bl = e.bl := by have := congrArg BlockEntry.bl he; exact this
      have hoff' : e'.scratchOffset = e.scratchOffset := by
        have := congrArg BlockEntry.scratchOffset he
        exact this
      exact .cons (hoff'.trans hoff) (hbl ▸ hp) (ih hrest)

/-- Entries whose offsets count the addenda below them can be pushed. -/
theorem exists_padPushed {es : List BlockEntry} {pad : List Hash} (hc : AllComplete env es)
    (hoff : ∀ i e, es[i]? = some e →
      e.scratchOffset = pad.length + (lineAddenda env (es.take i)).length) :
    ∃ pad', PadPushed env pad es pad' := by
  induction es generalizing pad with
  | nil => exact ⟨pad, .nil⟩
  | cons e rest ih =>
    obtain ⟨hce, hcrest⟩ := hc.cons
    have he : e.scratchOffset = pad.length := hoff 0 e rfl
    have hpush : pushBlockScratchpadData env e.bl pad = .ok (applyScratchpadPatch
        (pad ++ addendumOf env e.bl) (getScratchpadPatch pad.length (addendumOf env e.bl) ∅)) := by
      unfold pushBlockScratchpadData pushBlockScratchpadPatch
      rw [hce.eq_addendumOf]
      rfl
    have htail : ∀ i e', rest[i]? = some e' → e'.scratchOffset =
        (applyScratchpadPatch (pad ++ addendumOf env e.bl)
          (getScratchpadPatch pad.length (addendumOf env e.bl) ∅)).length +
          (lineAddenda env (rest.take i)).length := by
      intro i e' hi
      rw [hoff (i + 1) e' hi, length_applyScratchpadPatch, List.length_append, List.take_succ_cons,
        lineAddenda, lineAddenda, List.flatMap_cons, List.length_append]
      omega
    obtain ⟨pad', hrest⟩ := ih hcrest htail
    exact ⟨pad', .cons he hpush hrest⟩

/-! ## Undoing the main line below the split -/

/-- One step of the merge. -/
def mergeStep (offset : Nat) (p : ScratchpadPatch) (q : Nat × Hash) : ScratchpadPatch :=
  if q.1 < offset then patchXor p q.1 q.2 else p

theorem getD_mergeStep (offset : Nat) (p : ScratchpadPatch) (q : Nat × Hash) (i : Nat) :
    (mergeStep offset p q).getD i 0 =
      p.getD i 0 ^^^ (if i = q.1 ∧ i < offset then q.2 else 0) := by
  unfold mergeStep
  by_cases hq : q.1 < offset
  · rw [if_pos hq, getD_patchXor]
    by_cases hi : i = q.1
    · rw [if_pos hi, if_pos ⟨hi, hi ▸ hq⟩]
    · rw [if_neg hi, if_neg fun h => hi h.1]
  · have hno : ¬ (i = q.1 ∧ i < offset) := fun h => hq (h.1 ▸ h.2)
    rw [if_neg hq, if_neg hno]
    exact BitVec.xor_zero.symm

theorem getD_mergeSteps_of_notMem (offset : Nat) {qs : List (Nat × Hash)} {i : Nat}
    (h : ∀ q ∈ qs, i ≠ q.1) (p : ScratchpadPatch) :
    (qs.foldl (mergeStep offset) p).getD i 0 = p.getD i 0 := by
  induction qs generalizing p with
  | nil => rfl
  | cons q rest ih =>
    obtain ⟨hq, hrest⟩ := List.forall_mem_cons.1 h
    rw [List.foldl_cons, ih hrest, getD_mergeStep, if_neg fun hi => hq hi.1]
    exact BitVec.xor_zero

theorem getD_mergeSteps_of_mem (offset : Nat) {qs : List (Nat × Hash)} {i : Nat} {h : Hash}
    (hd : qs.Pairwise fun a b => a.1 ≠ b.1) (hm : (i, h) ∈ qs) (p : ScratchpadPatch) :
    (qs.foldl (mergeStep offset) p).getD i 0 = p.getD i 0 ^^^ (if i < offset then h else 0) := by
  induction qs generalizing p with
  | nil => cases hm
  | cons q rest ih =>
    obtain ⟨hq, hrest⟩ := List.pairwise_cons.1 hd
    rw [List.foldl_cons]
    rcases List.mem_cons.1 hm with rfl | hm
    · -- the cell comes up here and nowhere else
      rw [getD_mergeSteps_of_notMem offset hq, getD_mergeStep]
      simp only [true_and]
    · have hne : ¬ (i = q.1 ∧ i < offset) := fun hi => hq _ hm hi.1.symm
      rw [ih hrest hm, getD_mergeStep, if_neg hne]
      exact congrArg (· ^^^ _) BitVec.xor_zero

/-- `mergePatches` xors the main line's patch into the cells below `offset`. -/
theorem getD_mergePatches (offset : Nat) (main alt : ScratchpadPatch) (i : Nat) :
    (mergePatches offset main alt).getD i 0 =
      alt.getD i 0 ^^^ (if i < offset then main.getD i 0 else 0) := by
  have hfold : mergePatches offset main alt = main.toList.foldl (mergeStep offset) alt := rfl
  rw [hfold]
  cases hm : main[i]? with
  | none =>
    have hnot : ∀ q ∈ main.toList, i ≠ q.1 := by
      intro q hq hi
      have := Std.ExtTreeMap.mem_toList_iff_getElem?_eq_some.1 hq
      rw [← hi, hm] at this
      cases this
    have hzero : main.getD i 0 = 0 := by
      rw [Std.ExtTreeMap.getD_eq_getD_getElem?, hm]
      rfl
    rw [getD_mergeSteps_of_notMem offset hnot, hzero, ite_self]
    exact BitVec.xor_zero.symm
  | some h =>
    have hd : main.toList.Pairwise fun a b => a.1 ≠ b.1 := by
      refine List.Pairwise.imp ?_ (Std.ExtTreeMap.distinct_keys_toList)
      intro a b hab heq
      rw [heq] at hab
      exact hab Std.ReflCmp.compare_self
    have hsome : main.getD i 0 = h := by
      rw [Std.ExtTreeMap.getD_eq_getD_getElem?, hm]
      rfl
    rw [getD_mergeSteps_of_mem offset hd (Std.ExtTreeMap.mem_toList_iff_getElem?_eq_some.2 hm), hsome]

/-! ## The view -/

/-- A cell as the alternative block reads it is the cell after a switch. -/
theorem altScratchpadAt_eq {main alt : List BlockEntry} {pad mainPad altPad : List Hash}
    (hmain : PadPushed env pad main mainPad) (hmc : AllComplete env main)
    (halt : PadPushed env pad alt altPad) (hac : AllComplete env alt) (hne : altPad ≠ []) (i : Nat) :
    altScratchpadAt mainPad (lineAddenda env alt)
        (mergePatches pad.length (linePatch env main ∅) (linePatch env alt ∅)) pad.length
        altPad.length i = (altPad[i % altPad.length]?).getD nullHash := by
  have hlt : i % altPad.length < altPad.length := Nat.mod_lt _ (List.length_pos_of_ne_nil hne)
  have hlen := halt.length hac
  unfold altScratchpadAt
  generalize i % altPad.length = c at hlt
  have hmainCell : mainPad[c]? = (pad ++ lineAddenda env main)[c]?.map
      (· ^^^ (linePatch env main ∅).getD c 0) := by
    rw [hmain.eq_applyPatch hmc, getElem?_applyScratchpadPatch]
  have haltCell : altPad[c]? = (pad ++ lineAddenda env alt)[c]?.map
      (· ^^^ (linePatch env alt ∅).getD c 0) := by
    rw [halt.eq_applyPatch hac, getElem?_applyScratchpadPatch]
  simp only [hmainCell, haltCell, getD_mergePatches]
  by_cases hc : pad.length ≤ c
  · -- the alternative blocks' own cells
    have hcell : c - pad.length < (lineAddenda env alt).length := by omega
    rw [if_pos hc, if_neg (by omega), List.getElem?_append_right hc, List.getElem?_eq_getElem hcell]
    exact congrArg (_ ^^^ ·) BitVec.xor_zero
  · -- a shared cell: the main line's patch goes in and out again
    rw [if_neg hc, if_pos (by omega), List.getElem?_append_left (by omega),
      List.getElem?_append_left (by omega), List.getElem?_eq_getElem (by omega)]
    generalize (linePatch env main ∅).getD c 0 = m
    generalize (linePatch env alt ∅).getD c 0 = a
    show pad[c] ^^^ m ^^^ (a ^^^ m) = pad[c] ^^^ a
    rw [BitVec.xor_comm a m, ← BitVec.xor_assoc, BitVec.xor_assoc pad[c], BitVec.xor_self,
      BitVec.xor_zero]

end

end DarknetSpace
