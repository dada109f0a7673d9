import DarknetSpace.Format.Scratchpad

/-!
# Scratchpads over many blocks

A patch is a function from cells to hashes under xor: patches of several blocks
add up, in any order, and one patch applied twice is none. A run of pushes is
therefore one patch over the old scratchpad followed by the raw addenda, which
is what makes it possible to undo part of a chain without walking it.

Popping in reverse order undoes a run of pushes exactly when every block has a
complete addendum.

These are the rules an alternative chain's view of the scratchpad is computed by
(`Chain/AltPad`), and a switch undone (`Core/AltBranch`). Patches are compared cell by
cell, through `getD`, since the same patch can be written down in more than one way.
-/

namespace DarknetSpace

/-- The coinbase's extra field parses and every output is `txout_to_key`. -/
def AddendumComplete (env : Env) (b : Block) : Prop :=
  (∃ info, parseAndValidateTxExtra env b.minerTx.toTransactionPrefix = .ok (true, info)) ∧
    ∀ o ∈ b.minerTx.vout, ∃ key mixAttr, o.target = .toKey key mixAttr

/-- Push blocks one after another. -/
def pushBlocksScratchpadData (env : Env) : List Block → List Hash → Except Exn (List Hash)
  | [], pad => .ok pad
  | b :: rest, pad => do
    let pad ← pushBlockScratchpadData env b pad
    pushBlocksScratchpadData env rest pad

/-- Pop blocks one after another, up to the first pop that returns `false`. -/
def popBlocksScratchpadData (env : Env) : List Block → List Hash → Except Exn (Bool × List Hash)
  | [], pad => .ok (true, pad)
  | b :: rest, pad => do
    let (ok, pad) ← popBlockScratchpadData env b pad
    if ok then popBlocksScratchpadData env rest pad else return (false, pad)

/-! ## Complete addenda -/

theorem addendumOuts_fst (env : Env) (prevId : Hash) (outs : List TxOut) :
    (addendumOuts env prevId outs).1 = true ↔
      ∀ o ∈ outs, ∃ key mixAttr, o.target = .toKey key mixAttr := by
  induction outs with
  | nil => exact ⟨fun _ o ho => absurd ho List.not_mem_nil, fun _ => rfl⟩
  | cons o rest ih =>
    rw [List.forall_mem_cons, ← ih]
    obtain ⟨amount, target⟩ := o
    cases target with
    | toKey key mixAttr => exact ⟨fun h => ⟨⟨key, mixAttr, rfl⟩, h⟩, fun h => h.2⟩
    | toScript keys script =>
      constructor
      · intro h
        cases h
      · intro ⟨⟨_, _, h⟩, _⟩
        cases h
    | toScripthash hash =>
      constructor
      · intro h
        cases h
      · intro ⟨⟨_, _, h⟩, _⟩
        cases h

/-- The verdict of `get_block_scratchpad_addendum` is about the block alone. -/
theorem getBlockScratchpadAddendum_complete {env : Env} {b : Block} {ok : Bool}
    {addendum : List Hash} (h : getBlockScratchpadAddendum env b = .ok (ok, addendum)) :
    ok = true ↔ AddendumComplete env b := by
  unfold getBlockScratchpadAddendum at h
  unfold AddendumComplete
  cases hp : parseAndValidateTxExtra env b.minerTx.toTransactionPrefix with
  | error e => rw [hp] at h; cases h
  | ok p =>
    obtain ⟨r, info⟩ := p
    rw [hp] at h
    cases r with
    | false =>
      obtain ⟨rfl, _⟩ := Prod.mk.inj (Except.ok.inj h)
      constructor
      · intro h
        cases h
      · intro ⟨⟨_, h⟩, _⟩
        cases h
    | true =>
      obtain ⟨rfl, _⟩ := Prod.mk.inj (Except.ok.inj h)
      rw [addendumOuts_fst]
      exact ⟨fun h => ⟨⟨info, rfl⟩, h⟩, fun h => h.2⟩

theorem AddendumComplete.addendum {env : Env} {b : Block} (h : AddendumComplete env b) :
    ∃ addendum, getBlockScratchpadAddendum env b = .ok (true, addendum) ∧ addendum ≠ [] := by
  obtain ⟨⟨info, hp⟩, houts⟩ := h
  have hok := (addendumOuts_fst env b.prevId b.minerTx.vout).2 houts
  refine ⟨(if getBlockHeight b ≠ 0 then [b.prevId] else []) ++
    [info.mTxPubKey, getTxTreeHash env b] ++ (addendumOuts env b.prevId b.minerTx.vout).2, ?_, ?_⟩
  · have hpair : addendumOuts env b.prevId b.minerTx.vout =
        (true, (addendumOuts env b.prevId b.minerTx.vout).2) := Prod.ext hok rfl
    unfold getBlockScratchpadAddendum
    rw [hp, hpair]
    rfl
  · intro h
    cases (List.append_eq_nil_iff.1 (List.append_eq_nil_iff.1 h).1).2

/-- The verdict alone. -/
def addendumVerdict (env : Env) (b : Block) : Bool :=
  match getBlockScratchpadAddendum env b with
  | .ok (ok, _) => ok
  | .error _ => false

theorem addendumVerdict_iff {env : Env} {b : Block} :
    addendumVerdict env b = true ↔ AddendumComplete env b := by
  unfold addendumVerdict
  cases h : getBlockScratchpadAddendum env b with
  | ok p => exact getBlockScratchpadAddendum_complete h
  | error e =>
    constructor
    · intro h
      cases h
    · intro hc
      obtain ⟨_, ha, _⟩ := hc.addendum
      cases h.symm.trans ha

instance (env : Env) (b : Block) : Decidable (AddendumComplete env b) :=
  decidable_of_iff _ addendumVerdict_iff

/-! ## Popping what was pushed -/

section

variable {env : Env}

theorem popBlockScratchpadData_fst {b : Block} {ok r : Bool} {addendum pad pad' : List Hash}
    (ha : getBlockScratchpadAddendum env b = .ok (ok, addendum))
    (h : popBlockScratchpadData env b pad = .ok (r, pad')) : r = ok := by
  unfold popBlockScratchpadData at h
  rw [ha] at h
  cases ok with
  | false => exact (Prod.mk.inj (Except.ok.inj h)).1.symm
  | true =>
    by_cases hlen : pad.length < addendum.length
    · simp only [bind, Except.bind, not_true_eq_false, if_false, if_pos hlen] at h
      cases h
    · simp only [bind, Except.bind, not_true_eq_false, if_false, if_neg hlen] at h
      exact (Prod.mk.inj (Except.ok.inj h)).1.symm

/-- One block: the pop undoes the push exactly when the addendum is complete. -/
theorem popBlockScratchpadData_eq {b : Block} {pad pad' : List Hash}
    (h : pushBlockScratchpadData env b pad = .ok pad') :
    (AddendumComplete env b ∧ popBlockScratchpadData env b pad' = .ok (true, pad)) ∨
      (¬ AddendumComplete env b ∧ popBlockScratchpadData env b pad' = .ok (false, pad')) := by
  obtain ⟨ok, addendum, ha, -⟩ := pushBlockScratchpadData_ok h
  have hiff := getBlockScratchpadAddendum_complete ha
  rcases popBlockScratchpadData_push h with hpop | hpop
  · exact .inl ⟨hiff.1 (popBlockScratchpadData_fst ha hpop).symm, hpop⟩
  · refine .inr ⟨fun hc => ?_, hpop⟩
    rw [hiff.2 hc] at ha
    cases popBlockScratchpadData_fst ha hpop

theorem pushBlocksScratchpadData_cons {b : Block} {rest : List Block} {pad pad' : List Hash}
    (h : pushBlocksScratchpadData env (b :: rest) pad = .ok pad') :
    ∃ pad₁, pushBlockScratchpadData env b pad = .ok pad₁ ∧
      pushBlocksScratchpadData env rest pad₁ = .ok pad' := by
  unfold pushBlocksScratchpadData at h
  cases hb : pushBlockScratchpadData env b pad with
  | error e => rw [hb] at h; cases h
  | ok pad₁ => rw [hb] at h; exact ⟨pad₁, rfl, h⟩

theorem popBlocksScratchpadData_cons {b : Block} (rest : List Block) {pad pad₁ : List Hash}
    {ok : Bool} (h : popBlockScratchpadData env b pad = .ok (ok, pad₁)) :
    popBlocksScratchpadData env (b :: rest) pad =
      if ok then popBlocksScratchpadData env rest pad₁ else .ok (false, pad₁) := by
  conv_lhs => unfold popBlocksScratchpadData
  rw [h]
  rfl

/-- Pop some blocks, then others. -/
theorem popBlocksScratchpadData_append (xs ys : List Block) {pad pad₁ : List Hash} {ok : Bool}
    (h : popBlocksScratchpadData env xs pad = .ok (ok, pad₁)) :
    popBlocksScratchpadData env (xs ++ ys) pad =
      if ok then popBlocksScratchpadData env ys pad₁ else .ok (false, pad₁) := by
  induction xs generalizing pad with
  | nil =>
    cases h
    rfl
  | cons b rest ih =>
    cases hb : popBlockScratchpadData env b pad with
    | error e =>
      unfold popBlocksScratchpadData at h
      rw [hb] at h
      cases h
    | ok p =>
      obtain ⟨r, pad₂⟩ := p
      rw [popBlocksScratchpadData_cons _ hb] at h
      rw [List.cons_append, popBlocksScratchpadData_cons _ hb]
      cases r with
      | true => exact ih h
      | false =>
        cases h
        rfl

/-- A run of pushes, popped in reverse order. -/
theorem popBlocksScratchpadData_push {bs : List Block} {pad pad' : List Hash}
    (h : pushBlocksScratchpadData env bs pad = .ok pad') :
    ((∀ b ∈ bs, AddendumComplete env b) ∧
        popBlocksScratchpadData env bs.reverse pad' = .ok (true, pad)) ∨
      (¬ (∀ b ∈ bs, AddendumComplete env b) ∧
        ∃ stuck, popBlocksScratchpadData env bs.reverse pad' = .ok (false, stuck)) := by
  induction bs generalizing pad with
  | nil =>
    cases h
    exact .inl ⟨fun b hb => absurd hb List.not_mem_nil, rfl⟩
  | cons b rest ih =>
    obtain ⟨pad₁, hb, hrest⟩ := pushBlocksScratchpadData_cons h
    rw [List.reverse_cons, List.forall_mem_cons]
    rcases ih hrest with ⟨hall, hpop⟩ | ⟨hnot, stuck, hpop⟩
    · -- the blocks above are gone, the lowest one is left
      rw [popBlocksScratchpadData_append _ _ hpop, if_pos rfl]
      rcases popBlockScratchpadData_eq hb with ⟨hc, hone⟩ | ⟨hc, hone⟩
      · rw [popBlocksScratchpadData_cons _ hone]
        exact .inl ⟨⟨hc, hall⟩, rfl⟩
      · rw [popBlocksScratchpadData_cons _ hone]
        exact .inr ⟨fun hboth => hc hboth.1, _, rfl⟩
    · rw [popBlocksScratchpadData_append _ _ hpop]
      exact .inr ⟨fun hboth => hnot hboth.2, stuck, rfl⟩

theorem popBlocksScratchpadData_of_complete {bs : List Block} {pad pad' : List Hash}
    (h : pushBlocksScratchpadData env bs pad = .ok pad') (hc : ∀ b ∈ bs, AddendumComplete env b) :
    popBlocksScratchpadData env bs.reverse pad' = .ok (true, pad) := by
  rcases popBlocksScratchpadData_push h with ⟨_, hpop⟩ | ⟨hnot, _⟩
  · exact hpop
  · exact absurd hc hnot

end

/-! ## Patches add up -/

theorem getD_patchXor (patch : ScratchpadPatch) (cell : Nat) (h : Hash) (i : Nat) :
    (patchXor patch cell h).getD i 0 = patch.getD i 0 ^^^ (if i = cell then h else 0) := by
  unfold patchXor
  rw [Std.ExtTreeMap.getD_insert]
  by_cases hi : i = cell
  · subst hi
    rw [if_pos (Std.ReflCmp.compare_self), if_pos rfl]
  · rw [if_neg fun hc => hi (Std.LawfulEqCmp.eq_of_compare hc).symm, if_neg hi]
    exact BitVec.xor_zero.symm

/-- A block's patch does not depend on what is there before it. -/
theorem getD_getScratchpadPatch (globalStart : Nat) (entries : List Hash) (patch : ScratchpadPatch)
    (i : Nat) :
    (getScratchpadPatch globalStart entries patch).getD i 0 =
      patch.getD i 0 ^^^ (getScratchpadPatch globalStart entries ∅).getD i 0 := by
  unfold getScratchpadPatch
  by_cases hg : globalStart = 0
  · rw [if_pos hg, if_pos hg]
    exact BitVec.xor_zero.symm
  · rw [if_neg hg, if_neg hg]
    induction entries generalizing patch with
    | nil => exact BitVec.xor_zero.symm
    | cons h rest ih =>
      rw [List.foldl_cons, List.foldl_cons, ih, ih (patchXor ∅ _ h), getD_patchXor, getD_patchXor]
      have hzero : (0 : Hash) ^^^ (if i = patchCell globalStart h then h else 0) =
          if i = patchCell globalStart h then h else 0 := BitVec.zero_xor
      rw [Std.ExtTreeMap.getD_empty, hzero, BitVec.xor_assoc]

/-- It reaches below the addendum only. -/
theorem getD_getScratchpadPatch_of_le {globalStart i : Nat} (hi : globalStart ≤ i)
    (entries : List Hash) : (getScratchpadPatch globalStart entries ∅).getD i 0 = 0 := by
  by_cases hg : globalStart = 0
  · unfold getScratchpadPatch
    rw [if_pos hg]
    exact Std.ExtTreeMap.getD_empty
  · induction entries with
    | nil =>
      unfold getScratchpadPatch
      rw [if_neg hg]
      exact Std.ExtTreeMap.getD_empty
    | cons h rest ih =>
      have hcell : i ≠ patchCell globalStart h := by
        have := Nat.mod_lt (firstWord h) (Nat.pos_of_ne_zero hg)
        unfold patchCell
        omega
      have hstep : getScratchpadPatch globalStart (h :: rest) ∅ =
          getScratchpadPatch globalStart rest (patchXor ∅ (patchCell globalStart h) h) := by
        unfold getScratchpadPatch
        rw [if_neg hg, if_neg hg]
        rfl
      rw [hstep, getD_getScratchpadPatch, ih, getD_patchXor, if_neg hcell,
        Std.ExtTreeMap.getD_empty]
      rfl

theorem getElem?_applyScratchpadPatch (pad : List Hash) (patch : ScratchpadPatch) (i : Nat) :
    (applyScratchpadPatch pad patch)[i]? = pad[i]?.map (· ^^^ patch.getD i 0) := by
  unfold applyScratchpadPatch
  rw [List.getElem?_mapIdx]

theorem applyScratchpadPatch_empty (pad : List Hash) : applyScratchpadPatch pad ∅ = pad := by
  apply List.ext_getElem?
  intro i
  rw [getElem?_applyScratchpadPatch, Std.ExtTreeMap.getD_empty]
  cases pad[i]? with
  | none => rfl
  | some h => exact congrArg some BitVec.xor_zero

/-- One patch after another is their sum. -/
theorem applyScratchpadPatch_apply {p q r : ScratchpadPatch}
    (h : ∀ i, r.getD i 0 = p.getD i 0 ^^^ q.getD i 0) (pad : List Hash) :
    applyScratchpadPatch (applyScratchpadPatch pad p) q = applyScratchpadPatch pad r := by
  apply List.ext_getElem?
  intro i
  rw [getElem?_applyScratchpadPatch, getElem?_applyScratchpadPatch, getElem?_applyScratchpadPatch, h]
  cases pad[i]? with
  | none => rfl
  | some x => exact congrArg some (BitVec.xor_assoc ..)

/-- A patch that stays inside the first part. -/
theorem applyScratchpadPatch_append {p : ScratchpadPatch} {pad : List Hash}
    (h : ∀ i, pad.length ≤ i → p.getD i 0 = 0) (above : List Hash) :
    applyScratchpadPatch (pad ++ above) p = applyScratchpadPatch pad p ++ above := by
  apply List.ext_getElem?
  intro i
  rw [getElem?_applyScratchpadPatch]
  by_cases hi : i < pad.length
  · rw [List.getElem?_append_left hi,
      List.getElem?_append_left (by rw [length_applyScratchpadPatch]; exact hi),
      getElem?_applyScratchpadPatch]
  · rw [List.getElem?_append_right (by omega),
      List.getElem?_append_right (by rw [length_applyScratchpadPatch]; omega),
      length_applyScratchpadPatch, h i (by omega)]
    cases above[i - pad.length]? with
    | none => rfl
    | some x => exact congrArg some BitVec.xor_zero

end DarknetSpace
