import DarknetSpace.Crypto.WildKeccakOpt
import Mathlib.Tactic.IntervalCases

/-!
# The unrolled hash is the hash

A round of the one, on the lanes as an array, is a round of the other, on the lanes
as variables: stage by stage, as both compute the same expressions of the lanes. The
mixing is the same as no block of four lanes reads a lane another one writes. Both
sponges are the same sponge (`Sponge.absorbed`) over these rounds.

The order of the proof is that of the computation. `theta_copyToState`,
`rhoPi_copyToState` and `chi_copyToState` are the stages of a round;
`keccakRounds_copyToState` is all rounds of a block, with the mixing before each of them
but the first; `absorbWhole_eq` and `absorbQueue_eq` are the sponge that takes the text
in pieces, and `hash_eq` the text as a whole with its padding.

Main result: `getBlobLonghashOpt_eq`, for every blob and every scratchpad that has
entries.
-/

namespace DarknetSpace

namespace WildKeccakOpt

open WildKeccak

/-! ## A round -/

/-- What is shifted out and what stays have no bit in common. -/
theorem rol64_eq {a offset : UInt64} (hpos : 0 < offset.toNat) (hlt : offset.toNat < 64) :
    rol64 a offset = rotl64 a offset := by
  have hback : (64 - offset).toNat = 64 - offset.toNat :=
    UInt64.toNat_sub_of_le _ _ (UInt64.le_iff_toNat_le.2 (Nat.le_of_lt hlt))
  have hshift : offset.toBitVec.toNat % 64 = offset.toNat := Nat.mod_eq_of_lt hlt
  have hshift' : (64 - offset).toBitVec.toNat % 64 = 64 - offset.toNat := by
    show (64 - offset).toNat % 64 = _
    rw [hback]
    exact Nat.mod_eq_of_lt (by omega)
  unfold rol64 rotl64
  apply UInt64.eq_of_toBitVec_eq
  rw [UInt64.toBitVec_xor, UInt64.toBitVec_or]
  apply BitVec.eq_of_getLsbD_eq
  intro i hi
  rw [BitVec.getLsbD_xor, BitVec.getLsbD_or]
  by_cases hfront : i < offset.toNat
  · have hlow : (a <<< offset).toBitVec.getLsbD i = false := by
      rw [UInt64.toBitVec_shiftLeft, BitVec.getLsbD_shiftLeft', BitVec.toNat_umod]
      show (decide (i < 64) && !decide (i < offset.toBitVec.toNat % 64) && _) = false
      rw [hshift, decide_eq_true hfront, Bool.not_true, Bool.and_false, Bool.false_and]
    rw [hlow, Bool.false_xor, Bool.false_or]
  · have hhigh : (a >>> (64 - offset)).toBitVec.getLsbD i = false := by
      rw [UInt64.toBitVec_shiftRight, BitVec.ushiftRight_eq', BitVec.getLsbD_ushiftRight]
      apply BitVec.getLsbD_of_ge
      rw [BitVec.toNat_umod]
      show 64 ≤ (64 - offset).toBitVec.toNat % 64 + i
      rw [hshift']
      omega
    rw [hhigh, Bool.xor_false, Bool.or_false]

/-- Five columns in the order of the reference. -/
def columnsVec (c : Columns) : Vector UInt64 5 := #v[c.a, c.e, c.i, c.o, c.u]

/-- The `Da` to `Du`. -/
def spread (c : Columns) : Columns :=
  { a := c.u ^^^ rotl64 c.e 1
    e := c.a ^^^ rotl64 c.i 1
    i := c.e ^^^ rotl64 c.o 1
    o := c.i ^^^ rotl64 c.u 1
    u := c.o ^^^ rotl64 c.a 1 }

/-- Theta, with the parities given. -/
def xorColumns (x : Lanes) (d : Columns) : Lanes :=
  { ba := x.ba ^^^ d.a, be := x.be ^^^ d.e, bi := x.bi ^^^ d.i, bo := x.bo ^^^ d.o, bu := x.bu ^^^ d.u
    ga := x.ga ^^^ d.a, ge := x.ge ^^^ d.e, gi := x.gi ^^^ d.i, go := x.go ^^^ d.o, gu := x.gu ^^^ d.u
    ka := x.ka ^^^ d.a, ke := x.ke ^^^ d.e, ki := x.ki ^^^ d.i, ko := x.ko ^^^ d.o, ku := x.ku ^^^ d.u
    ma := x.ma ^^^ d.a, me := x.me ^^^ d.e, mi := x.mi ^^^ d.i, mo := x.mo ^^^ d.o, mu := x.mu ^^^ d.u
    sa := x.sa ^^^ d.a, se := x.se ^^^ d.e, si := x.si ^^^ d.i, so := x.so ^^^ d.o, su := x.su ^^^ d.u }

/-- The `Bba` to `Bsu`. -/
def moved (x : Lanes) : Lanes :=
  { ba := x.ba, be := rotl64 x.ge 44, bi := rotl64 x.ki 43, bo := rotl64 x.mo 21, bu := rotl64 x.su 14
    ga := rotl64 x.bo 28, ge := rotl64 x.gu 20, gi := rotl64 x.ka 3, go := rotl64 x.me 45
    gu := rotl64 x.si 61
    ka := rotl64 x.be 1, ke := rotl64 x.gi 6, ki := rotl64 x.ko 25, ko := rotl64 x.mu 8
    ku := rotl64 x.sa 18
    ma := rotl64 x.bu 27, me := rotl64 x.ga 36, mi := rotl64 x.ke 10, mo := rotl64 x.mi 15
    mu := rotl64 x.so 56
    sa := rotl64 x.bi 62, se := rotl64 x.go 55, si := rotl64 x.ku 39, so := rotl64 x.ma 41
    su := rotl64 x.se 2 }

theorem parities_copyToState (x : Lanes) :
    parities (copyToState x) = columnsVec (prepareWildTheta x) := rfl

/-- Theta on both sides. -/
theorem theta_copyToState (x : Lanes) :
    theta (copyToState x) = copyToState (xorColumns x (spread (prepareWildTheta x))) := by
  unfold theta
  rw [parities_copyToState]
  apply Vector.ext
  intro i hi
  rw [Vector.getElem_ofFn]
  interval_cases i <;> simp [copyToState, columnsVec, xorColumns, spread]

/-- Rho and pi on both sides. -/
theorem rhoPi_copyToState (x : Lanes) : rhoPi (copyToState x) = copyToState (moved x) := by
  have hsteps : rhoPi (copyToState x) =
      ((List.finRange 24).foldl rhoPiStep (copyToState x, x.be)).1 := rfl
  have hlanes : List.finRange 24 = [0, 1, 2, 3, 4, 5, 6, 7, 8, 9, 10, 11, 12, 13, 14, 15, 16, 17,
      18, 19, 20, 21, 22, 23] := by rfl
  rw [hsteps, hlanes]
  simp [rhoPiStep, keccakfPiln, keccakfRotc, copyToState, moved]

/-- Chi, lane by lane. -/
def chiLanes (b : Lanes) : Lanes :=
  { ba := b.ba ^^^ (~~~ b.be &&& b.bi), be := b.be ^^^ (~~~ b.bi &&& b.bo)
    bi := b.bi ^^^ (~~~ b.bo &&& b.bu), bo := b.bo ^^^ (~~~ b.bu &&& b.ba)
    bu := b.bu ^^^ (~~~ b.ba &&& b.be)
    ga := b.ga ^^^ (~~~ b.ge &&& b.gi), ge := b.ge ^^^ (~~~ b.gi &&& b.go)
    gi := b.gi ^^^ (~~~ b.go &&& b.gu), go := b.go ^^^ (~~~ b.gu &&& b.ga)
    gu := b.gu ^^^ (~~~ b.ga &&& b.ge)
    ka := b.ka ^^^ (~~~ b.ke &&& b.ki), ke := b.ke ^^^ (~~~ b.ki &&& b.ko)
    ki := b.ki ^^^ (~~~ b.ko &&& b.ku), ko := b.ko ^^^ (~~~ b.ku &&& b.ka)
    ku := b.ku ^^^ (~~~ b.ka &&& b.ke)
    ma := b.ma ^^^ (~~~ b.me &&& b.mi), me := b.me ^^^ (~~~ b.mi &&& b.mo)
    mi := b.mi ^^^ (~~~ b.mo &&& b.mu), mo := b.mo ^^^ (~~~ b.mu &&& b.ma)
    mu := b.mu ^^^ (~~~ b.ma &&& b.me)
    sa := b.sa ^^^ (~~~ b.se &&& b.si), se := b.se ^^^ (~~~ b.si &&& b.so)
    si := b.si ^^^ (~~~ b.so &&& b.su), so := b.so ^^^ (~~~ b.su &&& b.sa)
    su := b.su ^^^ (~~~ b.sa &&& b.se) }

theorem chi_copyToState (b : Lanes) : chi (copyToState b) = copyToState (chiLanes b) := by
  unfold chi
  apply Vector.ext
  intro i hi
  rw [Vector.getElem_ofFn]
  interval_cases i <;> simp [copyToState, chiLanes]

/-- A round on the lanes as an array and as variables. -/
theorem keccakf_copyToState (x : Lanes) :
    keccakf (copyToState x) 1 =
      copyToState (thetaRhoPiChiIota 0 (prepareWildTheta x) x) := by
  have hround : keccakf (copyToState x) 1 = iota (chi (rhoPi (theta (copyToState x)))) 0 := rfl
  rw [hround, theta_copyToState, rhoPi_copyToState, chi_copyToState]
  simp (disch := decide) only [thetaRhoPiChiIota, rol64_eq]
  rfl

/-! ## Mixing -/

theorem hashWord_xor (a b : Hash) (i : Nat) :
    hashWord (a ^^^ b) i = hashWord a i ^^^ hashWord b i := by
  unfold hashWord
  apply UInt64.toNat_inj.1
  rw [UInt64.toNat_xor, UInt64.toNat_ofNat', UInt64.toNat_ofNat', UInt64.toNat_ofNat',
    BitVec.toNat_xor, Nat.xor_div_two_pow, Nat.xor_mod_two_pow]

/-- The words of an entry of the scratchpad stand four times as far from its front. -/
theorem padOfHashes_words (scratchpad : List Hash) (i : Nat) {off : Nat} (hoff : off < 4) :
    (padOfHashes scratchpad).words.getD (i <<< 2 + off) 0 = hashWord (scratchpad.getD i 0) off := by
  have hfour : i <<< 2 = 4 * i := by
    rw [Nat.shiftLeft_eq, Nat.mul_comm]
  rw [hfour]
  unfold padOfHashes
  simp only
  induction scratchpad generalizing i with
  | nil =>
    have hnull : hashWord 0 off = 0 := by
      interval_cases off <;> rfl
    rw [List.flatMap_nil, List.getD_nil, List.getD_nil, hnull]
  | cons h rest ih =>
    have hlen : ((List.range 4).map (hashWord h)).length = 4 := by
      rw [List.length_map, List.length_range]
    rw [List.flatMap_cons]
    cases i with
    | zero =>
      rw [List.getD_append _ _ _ _ (by omega)]
      interval_cases off <;> rfl
    | succ i =>
      have hnext : 4 * (i + 1) + off - 4 = 4 * i + off := by omega
      rw [List.getD_append_right _ _ _ _ (by omega), hlen, hnext, List.getD_cons_succ]
      exact ih i (by rw [Nat.shiftLeft_eq, Nat.mul_comm])

section

variable (scratchpad : List Hash)

/-- The accessor of `get_blob_longhash`. -/
def entryAt (index : UInt64) : Hash := scratchpad.getD (index.toNat % scratchpad.length) 0

/-- The data that four lanes name. -/
theorem readScratchPadData_eq (a b c d : UInt64) {off : Nat} (hoff : off < 4) :
    readScratchPadData (padOfHashes scratchpad) (prepareScratchPadAddr (padOfHashes scratchpad) a)
        (prepareScratchPadAddr (padOfHashes scratchpad) b)
        (prepareScratchPadAddr (padOfHashes scratchpad) c)
        (prepareScratchPadAddr (padOfHashes scratchpad) d) off =
      hashWord (xor4 (entryAt scratchpad a) (entryAt scratchpad b) (entryAt scratchpad c)
        (entryAt scratchpad d)) off := by
  have hsize : (padOfHashes scratchpad).size >>> 2 = scratchpad.length := by
    show (scratchpad.length * 4) >>> 2 = _
    rw [Nat.shiftRight_eq_div_pow]
    omega
  unfold readScratchPadData prepareScratchPadAddr xor4 entryAt
  rw [hsize, padOfHashes_words _ _ hoff, padOfHashes_words _ _ hoff, padOfHashes_words _ _ hoff,
    padOfHashes_words _ _ hoff, hashWord_xor, hashWord_xor, hashWord_xor, UInt64.xor_assoc,
    UInt64.xor_assoc]

/-- Mixing in place is mixing with what the callback has read beforehand. -/
theorem xorMixin_copyToState (x : Lanes) :
    xorMixin (copyToState x) (longhashMixin 1 (entryAt scratchpad) (copyToState x)) =
      copyToState (updateWildToState (padOfHashes scratchpad) x) := by
  unfold updateWildToState updateWildStateBlock xorMixin longhashMixin
  rw [if_neg (by decide)]
  simp only [readScratchPadData_eq _ _ _ _ _ (by decide : 0 < 4),
    readScratchPadData_eq _ _ _ _ _ (by decide : 1 < 4),
    readScratchPadData_eq _ _ _ _ _ (by decide : 2 < 4),
    readScratchPadData_eq _ _ _ _ _ (by decide : 3 < 4)]
  apply Vector.ext
  intro i hi
  rw [Vector.getElem_ofFn]
  interval_cases i <;> simp [copyToState]

/-! ## The rounds of a block -/

/-- A first step and then the others, which are all the same. -/
theorem foldl_range_succ {σ : Type} {f : σ → Nat → σ} {g : σ → σ}
    (h : ∀ st n, f st (n + 1) = g st) (st : σ) (n : Nat) :
    (List.range (n + 1)).foldl f st = g^[n] (f st 0) := by
  induction n with
  | zero => rfl
  | succ n ih =>
    rw [List.range_succ, List.foldl_append, ih, Function.iterate_succ_apply']
    exact h _ n

/-- What a block does to a state. -/
def absorbBlock (st : StateTM) (block : Blob) : StateTM :=
  keccakRounds (longhashMixin 1 (entryAt scratchpad)) (xorBlock st block)

/-- All rounds, by induction on how many are left. -/
theorem keccakRounds_copyToState (x : Lanes) :
    keccakRounds (longhashMixin 1 (entryAt scratchpad)) (copyToState x) =
      copyToState (wildRounds (padOfHashes scratchpad) x) := by
  have hrounds := foldl_range_succ
    (f := fun st ll => keccakf (if ll ≠ 0 then xorMixin st (longhashMixin 1 (entryAt scratchpad) st)
      else st) 1)
    (g := fun st => keccakf (xorMixin st (longhashMixin 1 (entryAt scratchpad) st)) 1)
    (fun st n => by rw [if_pos (Nat.succ_ne_zero n)]) (copyToState x) 23
  have hround : Function.Semiconj copyToState (wildRound (padOfHashes scratchpad))
      (fun st => keccakf (xorMixin st (longhashMixin 1 (entryAt scratchpad) st)) 1) := by
    intro y
    simp only
    rw [xorMixin_copyToState, keccakf_copyToState]
    rfl
  unfold keccakRounds wildRounds
  rw [hrounds, if_neg (fun hn => hn rfl), keccakf_copyToState]
  exact ((hround.iterate_right 23) _).symm

/-- A block that is mixed in. -/
theorem copyFromStateAndXor1088bits_eq (state : StateTM) (input : Blob) :
    copyToState (copyFromStateAndXor1088bits state input) = xorBlock state input := by
  unfold xorBlock copyFromStateAndXor1088bits copyToState
  apply Vector.ext
  intro i hi
  rw [Vector.getElem_ofFn]
  interval_cases i <;> rfl

theorem keccakAbsorb1088bits_eq (state : StateTM) (data : Blob) :
    keccakAbsorb1088bits (padOfHashes scratchpad) state data = absorbBlock scratchpad state data := by
  unfold keccakAbsorb1088bits absorbBlock
  rw [← keccakRounds_copyToState, copyFromStateAndXor1088bits_eq]

/-! ## The sponges -/

/-- Words are read from the front of a block. -/
theorem wordAt_take {inp : Blob} {i : Nat} (hi : i < rsizw) :
    wordAt (inp.take rsiz) i = wordAt inp i := by
  have hin : 8 * i + 8 ≤ rsiz := by
    simp only [rsizw, rsiz, mdlen] at *
    omega
  unfold wordAt
  rw [List.drop_take, List.take_take, Nat.min_eq_left (by omega)]

/-- Only the rate counts. -/
theorem absorbBlock_take (st : StateTM) (inp : Blob) :
    absorbBlock scratchpad st (inp.take rsiz) = absorbBlock scratchpad st inp := by
  have hxor : xorBlock st (inp.take rsiz) = xorBlock st inp := by
    apply Vector.ext
    intro i hi
    unfold xorBlock
    rw [Vector.getElem_ofFn, Vector.getElem_ofFn]
    by_cases hword : i < rsizw
    · rw [if_pos hword, if_pos hword, wordAt_take hword]
    · rw [if_neg hword, if_neg hword]
  unfold absorbBlock
  rw [hxor]

/-- The loop over whole blocks. -/
theorem wildKeccakLoop_eq (st : StateTM) (inp : Blob) :
    wildKeccakLoop (longhashMixin 1 (entryAt scratchpad)) st inp =
      (Sponge.blocks (absorbBlock scratchpad) rsiz (inp.length / rsiz) st inp,
        Sponge.rest rsiz inp) := by
  unfold wildKeccakLoop
  by_cases hlong : rsiz ≤ inp.length
  · have hblocks := @Sponge.blocks_of_le _ _ (absorbBlock scratchpad) rsiz st inp (by decide) hlong
    rw [absorbBlock_take] at hblocks
    rw [if_pos hlong, wildKeccakLoop_eq, hblocks, Sponge.rest_drop (by decide) hlong]
    rfl
  · have hshort := Nat.not_le.1 hlong
    rw [if_neg hlong, Nat.div_eq_of_lt hshort, Sponge.rest_of_lt hshort]
    rfl
termination_by inp.length
decreasing_by
  rw [List.length_drop]
  simp only [rsiz, mdlen] at *
  omega

/-- The state after a text. -/
def absorbedState (inp : Blob) : StateTM :=
  Sponge.absorbed (absorbBlock scratchpad) rsiz padded (Vector.replicate 25 0) inp

theorem wildKeccak_eq (inp : Blob) :
    wildKeccak (longhashMixin 1 (entryAt scratchpad)) inp =
      (bytesOfWords (absorbedState scratchpad inp).toList).take mdlen := by
  unfold wildKeccak
  rw [wildKeccakLoop_eq]
  rfl

/-- Whole blocks of the optimised code. -/
theorem absorbWhole_eq {rate : Nat} (hrate : rate = 1088) (wholeBlocks : Nat) (state : StateTM)
    (curData : Blob) :
    absorbWhole (padOfHashes scratchpad) rate wholeBlocks state curData =
      some (Sponge.blocks (absorbBlock scratchpad) rsiz wholeBlocks state curData) := by
  induction wholeBlocks generalizing state curData with
  | zero => rfl
  | succ n ih =>
    unfold absorbWhole
    rw [if_pos hrate, ih, keccakAbsorb1088bits_eq, ← absorbBlock_take]
    rfl

/-- Less than a block goes to the queue. -/
theorem absorbLoop_rest {data : Blob} {k fuel : Nat} {st : SpongeState} (hk : k ≤ data.length)
    (hshort : data.length < k + rsiz) (hfuel : data.length * 8 < k * 8 + fuel)
    (hrate : st.rate = 1088) (hqueue : st.bitsInQueue = 0) :
    absorbLoop (padOfHashes scratchpad) data (data.length * 8) fuel (k * 8) st =
      some { st with
        dataQueue := copyAt st.dataQueue 0 (data.drop k)
        bitsInQueue := (data.length - k) * 8 } := by
  have hrsiz : rsiz = 136 := rfl
  obtain ⟨fuel, rfl⟩ : ∃ n, fuel = n + 1 := ⟨fuel - 1, by omega⟩
  unfold absorbLoop
  by_cases hend : data.length = k
  · have hnone : copyAt st.dataQueue 0 [] = st.dataQueue := rfl
    rw [if_pos (by omega), ← hend, List.drop_length, Nat.sub_self, Nat.zero_mul, hnone, ← hqueue]
  · have hwhole : ¬(st.bitsInQueue = 0 ∧ st.rate ≤ data.length * 8 ∧
        k * 8 ≤ data.length * 8 - st.rate) := by omega
    have hmod : (data.length * 8 - k * 8) % 2 ^ 32 = (data.length - k) * 8 := by
      rw [Nat.mod_eq_of_lt (by omega)]
      omega
    have hfits : ¬st.rate < (data.length - k) * 8 + st.bitsInQueue := by omega
    have hbytes : (data.length - k) * 8 % 8 = 0 := by omega
    have hbits : (data.length - k) * 8 / 8 = data.length - k := by omega
    have hroom : ¬0 + (data.length - k) * 8 = st.rate := by omega
    have hat : k * 8 / 8 = k := by omega
    have hnext : k * 8 + (data.length - k) * 8 = data.length * 8 := by omega
    obtain ⟨fuel, rfl⟩ : ∃ n, fuel = n + 1 := ⟨fuel - 1, by omega⟩
    rw [if_neg (by omega), if_neg hwhole]
    simp only [hmod]
    rw [if_neg hfits, hbytes, Nat.sub_zero, hqueue, hbits, hat, hnext, if_neg hroom]
    simp only [Option.bind_eq_bind, Option.bind_some]
    rw [if_neg (Nat.lt_irrefl 0)]
    unfold absorbLoop
    rw [if_pos (Nat.le_refl _), List.take_of_length_le (by rw [List.length_drop]), Nat.zero_add]

/-- Whole blocks are absorbed, the rest is in the queue. -/
theorem absorb_eq {data : Blob} {st : SpongeState} (hrate : st.rate = 1088)
    (hqueue : st.bitsInQueue = 0) (hphase : st.squeezing = false) :
    absorb (padOfHashes scratchpad) st data (data.length * 8) =
      some { st with
        state := Sponge.blocks (absorbBlock scratchpad) rsiz (data.length / rsiz) st.state data
        dataQueue := copyAt st.dataQueue 0 (Sponge.rest rsiz data)
        bitsInQueue := (Sponge.rest rsiz data).length * 8 } := by
  have hrsiz : rsiz = 136 := rfl
  have hlen : (Sponge.rest rsiz data).length = data.length - data.length / rsiz * rsiz :=
    List.length_drop
  have hdiv := Nat.div_add_mod' data.length rsiz
  have hmod := Nat.mod_lt data.length (show 0 < rsiz by decide)
  unfold absorb
  rw [if_neg (by omega), if_neg (by rw [hphase]; exact Bool.false_ne_true), hlen]
  by_cases hlong : rsiz ≤ data.length
  · have hwhole : (data.length * 8 - 0) / st.rate = data.length / rsiz := by
      rw [hrate, hrsiz]
      omega
    have hnext : 0 + data.length / rsiz * st.rate = data.length / rsiz * rsiz * 8 := by
      rw [hrate, hrsiz]
      omega
    unfold absorbLoop
    rw [if_neg (by omega), if_pos ⟨hqueue, by omega, Nat.zero_le _⟩, hwhole]
    simp only
    rw [hnext, absorbWhole_eq _ hrate]
    have hrest := @absorbLoop_rest scratchpad data (data.length / rsiz * rsiz) (data.length * 8)
      { st with
        state := Sponge.blocks (absorbBlock scratchpad) rsiz (data.length / rsiz) st.state data }
      (by omega) (by omega) (by omega) hrate hqueue
    exact hrest
  · have hshort := Nat.not_le.1 hlong
    have hrest := @absorbLoop_rest scratchpad data 0 (data.length * 8 + 1) st (Nat.zero_le _)
      (by omega) (by omega) hrate hqueue
    rw [Nat.zero_mul] at hrest
    rw [Nat.div_eq_of_lt hshort, Nat.zero_mul, Sponge.rest_of_lt hshort, hrest]
    rfl

theorem modify_length_append {α : Type} (f : α → α) (front : List α) (a : α) (back : List α) :
    (front ++ a :: back).modify front.length f = front ++ f a :: back := by
  induction front with
  | nil => rfl
  | cons b front ih => exact congrArg (b :: ·) ih

/-- The queue, padded, is the last block. -/
theorem queue_padded {queue inp : Blob} (hfront : queue.take inp.length = inp)
    (hlen : inp.length < rsiz) :
    (orBit (orBit (copyAt queue inp.length (List.replicate (rsiz - inp.length) 0))
      (inp.length * 8)) (rsiz * 8 - 1)).take rsiz = padded inp := by
  have hone : inp.length * 8 / 8 = inp.length := by omega
  have hbit : inp.length * 8 % 8 = 0 := by omega
  have hzeros : List.replicate (rsiz - inp.length) (0 : UInt8) =
      0 :: List.replicate (rsiz - (inp.length + 1)) 0 := by
    rw [← List.replicate_succ]
    congr 1
    omega
  have hblock : (inp ++ List.replicate (rsiz - inp.length) (0 : UInt8)).length = rsiz := by
    rw [List.length_append, List.length_replicate]
    omega
  unfold orBit copyAt padded
  rw [hone, hbit, List.take_modify, List.take_modify, hfront, List.take_left' hblock, hzeros,
    modify_length_append]
  rfl

theorem absorbQueue_eq {st : SpongeState} (hrate : st.rate = 1088) :
    absorbQueue (padOfHashes scratchpad) st =
      some { st with state := absorbBlock scratchpad st.state st.dataQueue, bitsInQueue := 0 } := by
  unfold absorbQueue
  rw [absorbWhole_eq _ hrate, ← absorbBlock_take]
  rfl

theorem bytesOfWords_append (front back : List UInt64) :
    bytesOfWords (front ++ back) = bytesOfWords front ++ bytesOfWords back :=
  List.flatMap_append

/-- A word has eight bytes. -/
theorem bytesOfWords_length (words : List UInt64) : (bytesOfWords words).length = 8 * words.length := by
  induction words with
  | nil => rfl
  | cons w rest ih =>
    show (bytesOfPod 8 w.toNat ++ bytesOfWords rest).length = _
    rw [List.length_append, bytesOfPod_length, ih, List.length_cons]
    omega

/-- The words extracted are more than the digest takes. -/
theorem extracted_take (state : StateTM) (queue : Blob) :
    (copyAt queue 0 (bytesOfWords (state.toList.take (1088 / 64)))).take mdlen =
      (bytesOfWords state.toList).take mdlen := by
  have hlen : (bytesOfWords (state.toList.take (1088 / 64))).length = 8 * 17 := by
    rw [bytesOfWords_length, List.length_take, Vector.length_toList]
    rfl
  have hmdlen : mdlen = 32 := rfl
  have hall : bytesOfWords state.toList = bytesOfWords (state.toList.take (1088 / 64)) ++
      bytesOfWords (state.toList.drop (1088 / 64)) := by
    rw [← bytesOfWords_append, List.take_append_drop]
  unfold copyAt
  rw [List.take_zero, List.nil_append, List.take_append_of_le_length (by omega), hall,
    List.take_append_of_le_length (by omega)]

/-- The first bytes of the state are there to be squeezed out. -/
theorem padAndSwitchToSqueezingPhase_eq {st : SpongeState} {inp : Blob} (hrate : st.rate = 1088)
    (hqueue : st.bitsInQueue = inp.length * 8) (hfront : st.dataQueue.take inp.length = inp)
    (hlen : inp.length < rsiz) :
    ∃ st', padAndSwitchToSqueezingPhase (padOfHashes scratchpad) st = some st' ∧
      st'.rate = 1088 ∧ st'.bitsAvailableForSqueezing = 1088 ∧
      st'.dataQueue.take mdlen =
        (bytesOfWords (absorbBlock scratchpad st.state (padded inp)).toList).take mdlen := by
  have hrsiz : rsiz = 136 := rfl
  have hused : (inp.length * 8 + 7) / 8 = inp.length := by omega
  unfold padAndSwitchToSqueezingPhase
  rw [hrate, hqueue, if_neg (by omega), hused]
  simp only [Option.bind_eq_bind, Option.pure_def, Option.bind_some]
  rw [absorbQueue_eq _ rfl]
  refine ⟨_, rfl, rfl, rfl, ?_⟩
  rw [extracted_take, ← absorbBlock_take]
  exact congrArg (fun block => (bytesOfWords (absorbBlock scratchpad st.state block).toList).take mdlen)
    (queue_padded hfront hlen)

/-- One block is enough for the output. -/
theorem squeezeLoop_eq {st : SpongeState} (hrate : st.rate = 1088)
    (havailable : st.bitsAvailableForSqueezing = 1088) :
    squeezeLoop 256 257 0 st [] = some (st.dataQueue.take mdlen) := by
  unfold squeezeLoop
  rw [if_neg (by decide), havailable, if_neg (by decide), hrate]
  unfold squeezeLoop
  rw [if_pos (by decide)]
  rfl

/-- The optimised code, as the same sponge. -/
theorem hash_eq (data : Blob) :
    hash (padOfHashes scratchpad) 256 data (data.length * 8) =
      some ((bytesOfWords (absorbedState scratchpad data).toList).take mdlen) := by
  obtain ⟨st, hinit, hrate, hqueue, hphase, hout, hzero⟩ : ∃ st, init 256 = some st ∧
      st.rate = 1088 ∧ st.bitsInQueue = 0 ∧ st.squeezing = false ∧ st.fixedOutputLength = 256 ∧
      st.state = Vector.replicate 25 0 := ⟨_, rfl, rfl, rfl, rfl, rfl, rfl⟩
  have hrest := Sponge.length_rest_lt (show 0 < rsiz by decide) data
  have hupdate := @absorb_eq scratchpad data st hrate hqueue hphase
  obtain ⟨st', hpad, hrate', havailable, hdigest⟩ := @padAndSwitchToSqueezingPhase_eq scratchpad
    { st with
      state := Sponge.blocks (absorbBlock scratchpad) rsiz (data.length / rsiz) st.state data
      dataQueue := copyAt st.dataQueue 0 (Sponge.rest rsiz data)
      bitsInQueue := (Sponge.rest rsiz data).length * 8 } (Sponge.rest rsiz data) hrate rfl
    (by
      unfold copyAt
      rw [List.take_zero, List.nil_append, List.take_left]) hrest
  rw [hzero] at hdigest
  unfold hash
  rw [if_neg (by decide), hinit]
  simp only [Option.bind_eq_bind, Option.bind_some]
  unfold update
  rw [if_pos (Nat.mul_mod_left _ _), hupdate]
  simp only [Option.bind_some]
  unfold finish squeeze
  rw [if_pos (by rw [hphase]; exact Bool.false_ne_true), hpad, hout]
  simp only [Option.bind_eq_bind, Option.bind_some]
  rw [if_neg (by decide), squeezeLoop_eq hrate' havailable, hdigest]
  rfl

end

end WildKeccakOpt

open WildKeccak WildKeccakOpt

/-- The unrolled hash of a blob is the hash, with every scratchpad that has entries. -/
theorem getBlobLonghashOpt_eq (blob : Blob) {scratchpad : List Hash} (h : scratchpad ≠ []) :
    getBlobLonghashOpt blob scratchpad = some (getBlobLonghash blob 1 scratchpad) := by
  have hdigest : ((bytesOfWords (absorbedState scratchpad blob).toList).take mdlen).length =
      mdlen := by
    rw [List.length_take, bytesOfWords_length, Vector.length_toList]
    rfl
  have hsecond := hash_eq scratchpad ((bytesOfWords (absorbedState scratchpad blob).toList).take mdlen)
  rw [hdigest] at hsecond
  unfold getBlobLonghashOpt wildKeccakDblOpt
  rw [if_neg h, hash_eq]
  simp only [Option.bind_eq_bind, Option.bind_some]
  rw [hsecond, ← wildKeccak_eq, ← wildKeccak_eq]
  rfl

/-- A blob of two blocks, and a scratchpad of three entries. -/
theorem getBlobLonghashOpt_eq_twoBlocks :
    getBlobLonghashOpt (List.replicate 200 7) [1, 2, 3] =
      some (getBlobLonghash (List.replicate 200 7) 1 [1, 2, 3]) :=
  getBlobLonghashOpt_eq (List.replicate 200 7) (List.cons_ne_nil _ _)

end DarknetSpace
