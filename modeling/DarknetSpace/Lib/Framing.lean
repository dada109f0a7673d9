import Mathlib.Data.List.Basic

/-!
# Reading a stream piece by piece

A reader takes what it can from the front of the items at hand and keeps the
rest until more come. `next` says what it does with them: it waits, it takes
something off, or it gives up. When what it takes and where it gives up do not
depend on items that have not come yet (`Steady`), a stream gives the same
however it is cut into pieces (`feed_feed`).

`drain_keeps` is the rule for what every step keeps.

`drain` is the loop with enough fuel, which a measure on the items gives: whatever
`next` takes makes it smaller. So the loop ends, and the fuel is never seen from
outside.
-/

namespace Framing

variable {σ β : Type}

/-- What a reader does with the items at hand. -/
inductive Next (σ β : Type) where
  | wait
  | stop (s : σ)
  | take (s : σ) (rest : List β)

/-- Where a reader is left: with a rest to go on from, or for good. -/
inductive Reader (σ β : Type) where
  | waiting (s : σ) (rest : List β)
  | stopped (s : σ)

def Reader.state : Reader σ β → σ
  | .waiting s _ => s
  | .stopped s => s

/-- The state is changed from outside. -/
def Reader.map (f : σ → σ) : Reader σ β → Reader σ β
  | .waiting s rest => .waiting (f s) rest
  | .stopped s => .stopped (f s)

@[simp] theorem Reader.state_map (f : σ → σ) (r : Reader σ β) : (r.map f).state = f r.state := by
  cases r <;> rfl

def Reader.Reading : Reader σ β → Prop
  | .waiting _ _ => True
  | .stopped _ => False

@[simp] theorem Reader.reading_map (f : σ → σ) (r : Reader σ β) :
    (r.map f).Reading ↔ r.Reading := by
  cases r <;> rfl

/-- Go on until nothing more can be taken, for at most `fuel` steps. -/
def drain (next : σ → List β → Next σ β) : Nat → σ → List β → Reader σ β
  | 0, s, buf => .waiting s buf
  | fuel + 1, s, buf =>
    match next s buf with
    | .wait => .waiting s buf
    | .stop s' => .stopped s'
    | .take s' rest => drain next fuel s' rest

/-- What `next` does stays the same when more items follow, unless it waits; and
`cost` bounds the steps it can take. -/
structure Steady (next : σ → List β → Next σ β) (cost : σ → List β → Nat) : Prop where
  stop_append : ∀ {s buf s'}, next s buf = .stop s' → ∀ more, next s (buf ++ more) = .stop s'
  take_append : ∀ {s buf s' rest}, next s buf = .take s' rest →
    ∀ more, next s (buf ++ more) = .take s' (rest ++ more)
  cost_lt : ∀ {s buf s' rest}, next s buf = .take s' rest → cost s' rest < cost s buf

/-- One more piece. -/
def feed (next : σ → List β → Next σ β) (cost : σ → List β → Nat) :
    Reader σ β → List β → Reader σ β
  | .waiting s rest, piece => drain next (cost s (rest ++ piece) + 1) s (rest ++ piece)
  | .stopped s, _ => .stopped s

/-- There is nothing left to do before more items come. -/
def Settled (next : σ → List β → Next σ β) : Reader σ β → Prop
  | .waiting s rest => next s rest = .wait
  | .stopped _ => True

variable {next : σ → List β → Next σ β} {cost : σ → List β → Nat}

/-! ## One step -/

theorem drain_wait {s : σ} {buf : List β} (h : next s buf = .wait) (fuel : Nat) :
    drain next fuel s buf = .waiting s buf := by
  cases fuel with
  | zero => rfl
  | succ fuel =>
    unfold drain
    rw [h]

theorem drain_stop {s s' : σ} {buf : List β} (h : next s buf = .stop s') (fuel : Nat) :
    drain next (fuel + 1) s buf = .stopped s' := by
  unfold drain
  rw [h]

theorem drain_take {s s' : σ} {buf rest : List β} (h : next s buf = .take s' rest) (fuel : Nat) :
    drain next (fuel + 1) s buf = drain next fuel s' rest := by
  conv_lhs => unfold drain
  rw [h]

/-! ## Enough steps -/

/-- Steps beyond the cost change nothing. -/
theorem drain_of_cost (hs : Steady next cost) {fuel fuel' : Nat} {s : σ} {buf : List β}
    (h : cost s buf < fuel) (h' : cost s buf < fuel') :
    drain next fuel s buf = drain next fuel' s buf := by
  induction fuel generalizing fuel' s buf with
  | zero => omega
  | succ fuel ih =>
    obtain ⟨fuel', rfl⟩ : ∃ k, fuel' = k + 1 := ⟨fuel' - 1, by omega⟩
    cases hn : next s buf with
    | wait => rw [drain_wait hn, drain_wait hn]
    | stop s' => rw [drain_stop hn, drain_stop hn]
    | take s' rest =>
      have hlt := hs.cost_lt hn
      rw [drain_take hn, drain_take hn]
      exact ih (by omega) (by omega)

theorem drain_settled (hs : Steady next cost) {fuel : Nat} {s : σ} {buf : List β}
    (h : cost s buf < fuel) : Settled next (drain next fuel s buf) := by
  induction fuel generalizing s buf with
  | zero => omega
  | succ fuel ih =>
    cases hn : next s buf with
    | wait =>
      rw [drain_wait hn]
      exact hn
    | stop s' =>
      rw [drain_stop hn]
      trivial
    | take s' rest =>
      have hlt := hs.cost_lt hn
      rw [drain_take hn]
      exact ih (by omega)

theorem feed_settled (hs : Steady next cost) {r : Reader σ β} (piece : List β) :
    Settled next (feed next cost r piece) := by
  cases r with
  | waiting s rest => exact drain_settled hs (Nat.lt_succ_self _)
  | stopped s => trivial

/-! ## Pieces -/

/-- What comes later is read after what came before. -/
theorem feed_drain (hs : Steady next cost) {fuel : Nat} {s : σ} {buf : List β}
    (h : cost s buf < fuel) (more : List β) :
    feed next cost (drain next fuel s buf) more =
      drain next (cost s (buf ++ more) + 1) s (buf ++ more) := by
  induction fuel generalizing s buf with
  | zero => omega
  | succ fuel ih =>
    cases hn : next s buf with
    | wait =>
      rw [drain_wait hn]
      rfl
    | stop s' =>
      rw [drain_stop hn, drain_stop (hs.stop_append hn more)]
      rfl
    | take s' rest =>
      have hlt := hs.cost_lt hn
      have hmore := hs.take_append hn more
      rw [drain_take hn, ih (by omega), drain_take hmore]
      exact drain_of_cost hs (Nat.lt_succ_self _) (hs.cost_lt hmore)

theorem feed_feed (hs : Steady next cost) (r : Reader σ β) (a b : List β) :
    feed next cost (feed next cost r a) b = feed next cost r (a ++ b) := by
  cases r with
  | waiting s rest =>
    show feed next cost (drain next _ s (rest ++ a)) b = drain next _ s (rest ++ (a ++ b))
    rw [feed_drain hs (Nat.lt_succ_self _), List.append_assoc]
  | stopped s => rfl

theorem feed_nil {r : Reader σ β} (h : Settled next r) : feed next cost r [] = r := by
  cases r with
  | waiting s rest =>
    show drain next _ s (rest ++ []) = _
    rw [List.append_nil]
    exact drain_wait h _
  | stopped s => rfl

/-! ## What every step keeps -/

/-- `I` of what is left to read, `J` once it has given up. -/
def Holds (I : σ → List β → Prop) (J : σ → Prop) : Reader σ β → Prop
  | .waiting s rest => I s rest
  | .stopped s => J s

theorem drain_keeps {I : σ → List β → Prop} {J : σ → Prop}
    (htake : ∀ s buf s' rest, I s buf → next s buf = .take s' rest → I s' rest)
    (hstop : ∀ s buf s', I s buf → next s buf = .stop s' → J s') {fuel : Nat} {s : σ}
    {buf : List β} (h : I s buf) : Holds I J (drain next fuel s buf) := by
  induction fuel generalizing s buf with
  | zero => exact h
  | succ fuel ih =>
    cases hn : next s buf with
    | wait =>
      rw [drain_wait hn]
      exact h
    | stop s' =>
      rw [drain_stop hn]
      exact hstop s buf s' h hn
    | take s' rest =>
      rw [drain_take hn]
      exact ih (htake s buf s' rest h hn)

end Framing
