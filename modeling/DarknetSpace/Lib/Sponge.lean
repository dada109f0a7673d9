import Mathlib.Data.List.Basic

/-!
# Sponges

A sponge takes a text up in blocks of `rate` symbols, what is left padded to a last
block. How a block changes the state and how the rest is padded are parameters.

`absorbed` is the state behind a whole text. An implementation that takes the text in
pieces keeps a part of a block between two pieces, and is compared with this one block
by block: the lemmas say that `blocks` of a text is `blocks` of its parts one after the
other, and that the rest does not see the blocks before it.
-/

namespace Sponge

variable {σ α : Type}

/-- The state after so many blocks from the front of a text. -/
def blocks (absorb : σ → List α → σ) (rate : Nat) : Nat → σ → List α → σ
  | 0, st, _ => st
  | n + 1, st, text => blocks absorb rate n (absorb st (text.take rate)) (text.drop rate)

/-- What is left behind the whole blocks. -/
def rest (rate : Nat) (text : List α) : List α := text.drop (text.length / rate * rate)

/-- The state after the whole blocks of a text and the padded rest. -/
def absorbed (absorb : σ → List α → σ) (rate : Nat) (pad : List α → List α) (st : σ)
    (text : List α) : σ :=
  absorb (blocks absorb rate (text.length / rate) st text) (pad (rest rate text))

variable {absorb : σ → List α → σ} {rate : Nat}

theorem rest_of_lt {text : List α} (h : text.length < rate) : rest rate text = text := by
  unfold rest
  rw [Nat.div_eq_of_lt h, Nat.zero_mul, List.drop_zero]

theorem rest_drop {text : List α} (hrate : 0 < rate) (h : rate ≤ text.length) :
    rest rate (text.drop rate) = rest rate text := by
  have hdiv : text.length / rate = (text.length - rate) / rate + 1 := by
    rw [← Nat.add_div_right _ hrate, Nat.sub_add_cancel h]
  unfold rest
  rw [List.length_drop, List.drop_drop, hdiv, Nat.add_one_mul, Nat.add_comm]

/-- The first block is the first to be taken up. -/
theorem blocks_of_le {st : σ} {text : List α} (hrate : 0 < rate) (h : rate ≤ text.length) :
    blocks absorb rate (text.length / rate) st text =
      blocks absorb rate ((text.drop rate).length / rate) (absorb st (text.take rate))
        (text.drop rate) := by
  have hdiv : text.length / rate = (text.length - rate) / rate + 1 := by
    rw [← Nat.add_div_right _ hrate, Nat.sub_add_cancel h]
  rw [hdiv, List.length_drop]
  rfl

theorem length_rest_lt (hrate : 0 < rate) (text : List α) : (rest rate text).length < rate := by
  have hmod := Nat.mod_lt text.length hrate
  have hdiv := Nat.div_add_mod' text.length rate
  unfold rest
  rw [List.length_drop]
  omega

end Sponge
