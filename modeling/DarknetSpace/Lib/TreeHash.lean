import Mathlib.Algebra.Group.Nat.Defs
import Mathlib.Data.Set.Function

/-!
# Binary trees of hashes

The root of a list of leaves, hashed together in neighbouring pairs, level by
level. A list whose length is no power of two is first brought down to one: the
leaves in front stay as they are, the rest is paired once.

Where no two of the pairs that are hashed collide, the root and the number of
leaves determine the leaves.

The collision the last part asks about is one between two pairs that really are hashed,
so it can be asked of a hash function with values of fixed size. `eq_of_root_eq` is by
induction on the levels; the lists have to be of known length, since the front of a
short level is leaves and the rest pairs.
-/

namespace DarknetSpace

namespace TreeHash

variable {δ : Type}

/-- The neighbours, two by two. -/
def pairs : List δ → List (δ × δ)
  | a :: b :: rest => (a, b) :: pairs rest
  | _ => []

variable (node : δ × δ → δ)

/-- The root over `2 ^ k` nodes; `d` if there are none. -/
def levels (d : δ) : (k : Nat) → List δ → δ
  | 0, hs => hs.headD d
  | k + 1, hs => levels d k ((pairs hs).map node)

/-- The pairs hashed on the way. -/
def levelPairs : (k : Nat) → List δ → List (δ × δ)
  | 0, _ => []
  | k + 1, hs => pairs hs ++ levelPairs k ((pairs hs).map node)

/-- The height of the tree over the first level with a power of two of nodes. -/
def height (hs : List δ) : Nat := (hs.length - 1).log2

/-- How many leaves that level takes over as they are. -/
def kept (hs : List δ) : Nat := 2 * 2 ^ height hs - hs.length

def firstLevel (hs : List δ) : List δ :=
  hs.take (kept hs) ++ (pairs (hs.drop (kept hs))).map node

def root (d : δ) (hs : List δ) : δ := levels node d (height hs) (firstLevel node hs)

/-- All pairs hashed for the root. -/
def hashed (hs : List δ) : List (δ × δ) :=
  pairs (hs.drop (kept hs)) ++ levelPairs node (height hs) (firstLevel node hs)

/-! ## Pairs -/

theorem pairs_length (hs : List δ) : (pairs hs).length = hs.length / 2 := by
  induction hs using pairs.induct with
  | case1 a b rest ih =>
    unfold pairs
    rw [List.length_cons, ih, List.length_cons, List.length_cons]
    omega
  | case2 hs hshort =>
    match hs with
    | [] => simp [pairs]
    | [_] => simp [pairs]
    | a :: b :: rest => exact absurd rfl (hshort a b rest)

/-- An even number of nodes can be told from their pairs. -/
theorem eq_of_pairs_eq {xs ys : List δ} (hlen : xs.length = ys.length) (heven : xs.length % 2 = 0)
    (h : pairs xs = pairs ys) : xs = ys := by
  induction xs using pairs.induct generalizing ys with
  | case1 a b rest ih =>
    match ys with
    | [] => cases hlen
    | [_] => cases hlen
    | c :: d :: rest' =>
      unfold pairs at h
      injection h with hpair hrest
      injection hpair with ha hb
      rw [List.length_cons, List.length_cons] at heven
      have hlen' : rest.length = rest'.length := by
        rw [List.length_cons, List.length_cons, List.length_cons, List.length_cons] at hlen
        omega
      rw [ha, hb, ih hlen' (by omega) hrest]
  | case2 xs hshort =>
    match xs with
    | [] => exact (List.length_eq_zero_iff.1 hlen.symm).symm
    | [_] => cases heven
    | a :: b :: rest => exact absurd rfl (hshort a b rest)

variable {node}

theorem eq_of_map_eq {S : Set (δ × δ)} (hinj : Set.InjOn node S) {ps qs : List (δ × δ)}
    (hps : ∀ p ∈ ps, p ∈ S) (hqs : ∀ q ∈ qs, q ∈ S) (h : ps.map node = qs.map node) :
    ps = qs := by
  induction ps generalizing qs with
  | nil => exact (List.map_eq_nil_iff.1 h.symm).symm
  | cons p ps ih =>
    cases qs with
    | nil => cases h
    | cons q qs =>
      injection h with hhead htail
      rw [List.forall_mem_cons] at hps hqs
      rw [hinj hps.1 hqs.1 hhead, ih hps.2 hqs.2 htail]

/-- Hashing the pairs loses nothing where they do not collide. -/
theorem eq_of_map_pairs_eq {S : Set (δ × δ)} (hinj : Set.InjOn node S) {xs ys : List δ}
    (hlen : xs.length = ys.length) (heven : xs.length % 2 = 0)
    (hxs : ∀ p ∈ pairs xs, p ∈ S) (hys : ∀ p ∈ pairs ys, p ∈ S)
    (h : (pairs xs).map node = (pairs ys).map node) : xs = ys :=
  eq_of_pairs_eq hlen heven (eq_of_map_eq hinj hxs hys h)

/-! ## Levels -/

theorem eq_of_levels_eq {S : Set (δ × δ)} (hinj : Set.InjOn node S) {d : δ} {k : Nat}
    {xs ys : List δ}
    (hx : xs.length = 2 ^ k) (hy : ys.length = 2 ^ k) (hxs : ∀ p ∈ levelPairs node k xs, p ∈ S)
    (hys : ∀ p ∈ levelPairs node k ys, p ∈ S) (h : levels node d k xs = levels node d k ys) :
    xs = ys := by
  induction k generalizing xs ys with
  | zero =>
    obtain ⟨x, rfl⟩ := List.length_eq_one_iff.1 hx
    obtain ⟨y, rfl⟩ := List.length_eq_one_iff.1 hy
    exact congrArg (fun z => [z]) h
  | succ k ih =>
    have hpow : 2 ^ (k + 1) = 2 ^ k * 2 := Nat.pow_succ _ _
    unfold levelPairs at hxs hys
    refine eq_of_map_pairs_eq hinj (hx.trans hy.symm) (by omega)
      (fun p hp => hxs p (List.mem_append_left _ hp))
      (fun p hp => hys p (List.mem_append_left _ hp)) ?_
    refine ih ?_ ?_ (fun p hp => hxs p (List.mem_append_right _ hp))
      (fun p hp => hys p (List.mem_append_right _ hp)) h
    · rw [List.length_map, pairs_length]
      omega
    · rw [List.length_map, pairs_length]
      omega

theorem kept_bounds {hs : List δ} (hpos : 0 < hs.length) :
    2 ^ height hs ≤ hs.length ∧ hs.length ≤ 2 * 2 ^ height hs := by
  unfold height
  by_cases hone : hs.length = 1
  · rw [hone]
    decide
  · have hne : hs.length - 1 ≠ 0 := by omega
    have hlow : 2 ^ (hs.length - 1).log2 ≤ hs.length - 1 := Nat.log2_self_le hne
    have hhigh : hs.length - 1 < 2 ^ ((hs.length - 1).log2 + 1) := Nat.lt_log2_self
    rw [Nat.pow_succ] at hhigh
    omega

theorem firstLevel_length {hs : List δ} (hpos : 0 < hs.length) :
    (firstLevel node hs).length = 2 ^ height hs := by
  have hbounds := kept_bounds hpos
  unfold firstLevel kept
  rw [List.length_append, List.length_take, List.length_map, pairs_length, List.length_drop]
  omega

/-- The root commits to the leaves. -/
theorem eq_of_root_eq {S : Set (δ × δ)} (hinj : Set.InjOn node S) {d : δ} {xs ys : List δ}
    (hlen : xs.length = ys.length) (hpos : 0 < xs.length) (hxs : ∀ p ∈ hashed node xs, p ∈ S)
    (hys : ∀ p ∈ hashed node ys, p ∈ S) (h : root node d xs = root node d ys) : xs = ys := by
  have hheight : height xs = height ys := by
    unfold height
    rw [hlen]
  have hkept : kept xs = kept ys := by
    unfold kept
    rw [hlen, hheight]
  have hbounds := kept_bounds hpos
  unfold hashed at hxs hys
  have hfirst : firstLevel node xs = firstLevel node ys := by
    refine eq_of_levels_eq (d := d) hinj (firstLevel_length hpos) ?_
      (fun p hp => hxs p (List.mem_append_right _ hp)) ?_ ?_
    · rw [firstLevel_length (hlen ▸ hpos), hheight]
    · intro p hp
      rw [hheight] at hp
      exact hys p (List.mem_append_right _ hp)
    · unfold root at h
      rw [← hheight] at h
      exact h
  unfold firstLevel at hfirst
  obtain ⟨htake, hmap⟩ := List.append_inj hfirst (by
    rw [List.length_take, List.length_take, hkept, hlen])
  have hdrop : xs.drop (kept xs) = ys.drop (kept ys) := by
    refine eq_of_map_pairs_eq hinj ?_ ?_ (fun p hp => hxs p (List.mem_append_left _ hp))
      (fun p hp => hys p (List.mem_append_left _ hp)) hmap
    · rw [List.length_drop, List.length_drop, hkept, hlen]
    · rw [List.length_drop]
      unfold kept
      omega
  rw [← List.take_append_drop (kept xs) xs, htake, hdrop, List.take_append_drop]

end TreeHash

end DarknetSpace
