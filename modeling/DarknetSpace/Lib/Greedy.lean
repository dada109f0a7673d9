import Mathlib.Data.List.Infix
import Mathlib.Data.List.Nodup
import Mathlib.Order.Lattice

/-!
# Greedy choice, and the best prefix

`keep` goes through a list once and keeps what is acceptable and has none of the
keys of what was kept before. `best` goes through a list, scores each prefix as
it grows and remembers the best one, until a prefix has no score. With the sum
of two numbers as the score, computed modulo `m`, the remembered prefix is the
best one exactly when no sum reaches `m` (`wrapped_top_iff`).

The two are used together for a block template: `keep` leaves the transactions that can
stand beside each other, and `best` is the loop that tries them. `Top` says what the
remembered prefix is, and is kept by each further element (`Top.concat`); a prefix
without a score ends the loop, and none that is longer is admitted
(`admitted_of_refused`).
-/

namespace Greedy

/-! ## Keeping what is compatible -/

section

variable {α κ : Type} [DecidableEq κ] {ok : α → Bool} {keys : α → List κ}

/-- What is kept of a list, behind elements that have the keys `seen`. -/
def keep (ok : α → Bool) (keys : α → List κ) : List κ → List α → List α
  | _, [] => []
  | seen, a :: rest =>
    if ok a = true ∧ ∀ k ∈ keys a, k ∉ seen then a :: keep ok keys (seen ++ keys a) rest
    else keep ok keys seen rest

theorem keep_sublist (seen : List κ) (l : List α) : (keep ok keys seen l).Sublist l := by
  induction l generalizing seen with
  | nil => exact List.Sublist.slnil
  | cons a rest ih =>
    unfold keep
    by_cases hkeep : ok a = true ∧ ∀ k ∈ keys a, k ∉ seen
    · rw [if_pos hkeep]
      exact (ih _).cons_cons a
    · rw [if_neg hkeep]
      exact (ih _).cons a

/-- No key is kept twice. -/
theorem keep_nodup {seen : List κ} {l : List α} (hl : ∀ a ∈ l, (keys a).Nodup)
    (hseen : seen.Nodup) : (seen ++ (keep ok keys seen l).flatMap keys).Nodup := by
  induction l generalizing seen with
  | nil =>
    rw [keep, List.flatMap_nil, List.append_nil]
    exact hseen
  | cons a rest ih =>
    rw [List.forall_mem_cons] at hl
    unfold keep
    by_cases hkeep : ok a = true ∧ ∀ k ∈ keys a, k ∉ seen
    · have hboth : (seen ++ keys a).Nodup := by
        rw [List.nodup_append]
        refine ⟨hseen, hl.1, ?_⟩
        intro k hk k' hk' heq
        exact hkeep.2 k' hk' (heq ▸ hk)
      rw [if_pos hkeep, List.flatMap_cons, ← List.append_assoc]
      exact ih hl.2 hboth
    · rw [if_neg hkeep]
      exact ih hl.2 hseen

end

/-! ## The best prefix -/

section

variable {α β : Type}

/-- A prefix of `l` that has a score, as all of its own prefixes do. -/
def Admitted (score : List α → Option β) (l q : List α) : Prop :=
  q <+: l ∧ ∀ q', q' <+: q → (score q').isSome = true

theorem admitted_map {γ : Type} {score : List α → Option β} {score' : List α → Option γ}
    (h : ∀ q, (score' q).isSome = (score q).isSome) {l q : List α} :
    Admitted score' l q ↔ Admitted score l q := by
  unfold Admitted
  simp only [h]

variable {score : List α → Option β}

theorem admitted_of_scored {l : List α} (h : ∀ q, q <+: l → (score q).isSome = true) (q : List α) :
    Admitted score l q ↔ q <+: l :=
  ⟨And.left, fun hq => ⟨hq, fun q' hq' => h q' (hq'.trans hq)⟩⟩

/-- Nothing behind a prefix without a score is admitted. -/
theorem admitted_of_refused {pre rest : List α} {a : α} (hs : score (pre ++ [a]) = none)
    (h : ∀ q, q <+: pre → (score q).isSome = true) (q : List α) :
    Admitted score (pre ++ a :: rest) q ↔ q <+: pre := by
  constructor
  · intro hq
    have hmore : pre ++ [a] <+: pre ++ a :: rest := by
      rw [List.append_cons pre a rest]
      exact List.prefix_append _ _
    rcases List.prefix_or_prefix_of_prefix hq.1 hmore with hshort | hlong
    · rcases List.prefix_concat_iff.1 hshort with rfl | hshort
      · have hsome := hq.2 _ List.prefix_rfl
        rw [hs] at hsome
        cases hsome
      · exact hshort
    · have hsome := hq.2 _ hlong
      rw [hs] at hsome
      cases hsome
  · intro hq
    exact ⟨hq.trans (List.prefix_append _ _), fun q' hq' => h q' (hq'.trans hq)⟩

variable [LinearOrder β]

/-- The best prefix of `pre ++ l`, where `top` is the best one of `pre`, with its
score. -/
def best (score : List α → Option β) : List α → List α × β → List α → List α × β
  | _, top, [] => top
  | pre, top, a :: rest =>
    match score (pre ++ [a]) with
    | none => top
    | some s => best score (pre ++ [a]) (if top.2 < s then (pre ++ [a], s) else top) rest

/-- One of the lists in `Q`, with its score, which none of them exceeds. -/
structure Top (score : List α → Option β) (Q : List α → Prop) (top : List α × β) : Prop where
  mem : Q top.1
  score_eq : score top.1 = some top.2
  ge : ∀ q s, Q q → score q = some s → s ≤ top.2

theorem Top.congr {Q Q' : List α → Prop} {top : List α × β} (h : Top score Q top)
    (hQ : ∀ q, Q' q ↔ Q q) : Top score Q' top where
  mem := (hQ _).2 h.mem
  score_eq := h.score_eq
  ge q s hq := h.ge q s ((hQ q).1 hq)

/-- One more element. -/
theorem Top.concat {pre : List α} {top : List α × β} {a : α} {s : β}
    (h : Top score (· <+: pre) top) (hs : score (pre ++ [a]) = some s) :
    Top score (· <+: pre ++ [a]) (if top.2 < s then (pre ++ [a], s) else top) := by
  by_cases hbetter : top.2 < s
  · rw [if_pos hbetter]
    refine ⟨List.prefix_rfl, hs, ?_⟩
    intro q t hq ht
    rcases List.prefix_concat_iff.1 hq with rfl | hq
    · rw [hs] at ht
      exact le_of_eq (Option.some.inj ht).symm
    · exact (h.ge q t hq ht).trans hbetter.le
  · rw [if_neg hbetter]
    refine ⟨h.mem.trans (List.prefix_append _ _), h.score_eq, ?_⟩
    intro q t hq ht
    rcases List.prefix_concat_iff.1 hq with rfl | hq
    · rw [hs] at ht
      exact Option.some.inj ht ▸ not_lt.1 hbetter
    · exact h.ge q t hq ht

/-- What is remembered in the end is the best of the admitted prefixes. -/
theorem best_top {pre l : List α} {top : List α × β} (h : Top score (· <+: pre) top)
    (hpre : ∀ q, q <+: pre → (score q).isSome = true) :
    Top score (Admitted score (pre ++ l)) (best score pre top l) := by
  induction l generalizing pre top with
  | nil =>
    rw [List.append_nil]
    exact h.congr (admitted_of_scored hpre)
  | cons a rest ih =>
    unfold best
    cases hs : score (pre ++ [a]) with
    | none => exact h.congr (admitted_of_refused hs hpre)
    | some s =>
      rw [List.append_cons pre a rest]
      refine ih (h.concat hs) ?_
      intro q hq
      rcases List.prefix_concat_iff.1 hq with rfl | hq
      · rw [hs]
        rfl
      · exact hpre q hq

end

/-! ## Scores that wrap -/

/-- The sums `r q + f q` modulo `m` have their maximum at `c`; `r` is largest
where `f` is nothing. Then `c` has the largest sum as well, and a second part
below `m`, exactly when no sum reaches `m`. -/
theorem wrapped_top_iff {α : Type} {Q : α → Prop} {r f : α → Nat} {m : Nat} {c start : α}
    (hc : Q c) (hstart : Q start) (hnone : f start = 0) (hlow : r start < m)
    (hr : ∀ q, Q q → r q ≤ r start) (htop : ∀ q, Q q → (r q + f q) % m ≤ (r c + f c) % m) :
    (f c < m ∧ ∀ q, Q q → r q + f q ≤ r c + f c) ↔ ∀ q, Q q → r q + f q < m := by
  constructor
  · rintro ⟨hfee, hbest⟩ q hq
    by_contra hover
    -- the best sum has wrapped to less than its first part
    have hsum := hbest q hq
    have hrc := hr c hc
    have hwrapped : (r c + f c) % m = r c + f c - m := by
      rw [Nat.mod_eq_sub_mod (by omega), Nat.mod_eq_of_lt (by omega)]
    have hfirst := htop start hstart
    rw [hnone, Nat.add_zero, Nat.mod_eq_of_lt hlow, hwrapped] at hfirst
    omega
  · intro hfit
    have hfitc := hfit c hc
    refine ⟨by omega, ?_⟩
    intro q hq
    have hle := htop q hq
    rw [Nat.mod_eq_of_lt (hfit q hq), Nat.mod_eq_of_lt hfitc] at hle
    exact hle

end Greedy
