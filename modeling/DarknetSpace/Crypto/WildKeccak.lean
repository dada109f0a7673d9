import DarknetSpace.Format.Archive
import DarknetSpace.Format.Difficulty
import DarknetSpace.Lib.Sponge

/-!
# The proof-of-work hash (`crypto/wild_keccak.h`, `crypto/wild_keccak.cpp`)

A Keccak whose column parities multiply three of the five lanes, and which mixes
entries of the scratchpad into its state before every round of a block but the
first. The rounds are run one at a time, so each of them takes the first round
constant.

`longhashMixin` is the mixing: each group of four words of the state chooses four
entries, and their difference by bits is mixed in. The scratchpad is a function from
words to entries here, as the source has it as a callback: for an alternative block the
callback reads a scratchpad with other blocks in it (`Chain/AltPad`).
-/

namespace DarknetSpace

namespace WildKeccak

/-- `state_t_m`. -/
abbrev StateTM := Vector UInt64 25

/-- `mixin_t`. -/
abbrev Mixin := Vector UInt64 24

def keccakfRndc : Vector UInt64 24 :=
  #v[0x0000000000000001, 0x0000000000008082, 0x800000000000808a,
    0x8000000080008000, 0x000000000000808b, 0x0000000080000001,
    0x8000000080008081, 0x8000000000008009, 0x000000000000008a,
    0x0000000000000088, 0x0000000080008009, 0x000000008000000a,
    0x000000008000808b, 0x800000000000008b, 0x8000000000008089,
    0x8000000000008003, 0x8000000000008002, 0x8000000000000080,
    0x000000000000800a, 0x800000008000000a, 0x8000000080008081,
    0x8000000000008080, 0x0000000080000001, 0x8000000080008008]

def keccakfRotc : Vector UInt64 24 :=
  #v[1, 3, 6, 10, 15, 21, 28, 36, 45, 55, 2, 14,
    27, 41, 56, 8, 25, 43, 62, 18, 39, 61, 20, 44]

def keccakfPiln : Vector (Fin 25) 24 :=
  #v[10, 7, 11, 17, 18, 3, 5, 16, 8, 21, 24, 4,
    15, 23, 19, 13, 12, 2, 20, 14, 22, 9, 6, 1]

/-- `ROTL64`. -/
def rotl64 (x y : UInt64) : UInt64 := x <<< y ||| x >>> (64 - y)

/-! ## A round (`mul_f::keccakf`) -/

/-- The parities of the columns, with products. -/
def parities (st : StateTM) : Vector UInt64 5 :=
  Vector.ofFn fun i => st[i.val] ^^^ st[i.val + 5] ^^^ st[i.val + 10] * st[i.val + 15] * st[i.val + 20]

def theta (st : StateTM) : StateTM :=
  let bc := parities st
  Vector.ofFn fun k =>
    let i := k.val % 5
    st[k] ^^^ (bc[(i + 4) % 5] ^^^ rotl64 bc[(i + 1) % 5] 1)

/-- One lane of the cycle of `keccakf_piln`: the state and `t`. -/
def rhoPiStep (p : StateTM × UInt64) (i : Fin 24) : StateTM × UInt64 :=
  (p.1.set keccakfPiln[i].val (rotl64 p.2 keccakfRotc[i]), p.1[keccakfPiln[i].val])

def rhoPi (st : StateTM) : StateTM := ((List.finRange 24).foldl rhoPiStep (st, st[1])).1

def chi (st : StateTM) : StateTM :=
  Vector.ofFn fun k =>
    let j := k.val / 5 * 5
    let i := k.val % 5
    st[k] ^^^ (~~~ st[j + (i + 1) % 5] &&& st[j + (i + 2) % 5])

def iota (st : StateTM) (round : Nat) : StateTM :=
  st.set 0 (st[0] ^^^ keccakfRndc[round]?.getD 0)

def keccakf (st : StateTM) (rounds : Nat) : StateTM :=
  (List.range rounds).foldl (fun st round => iota (chi (rhoPi (theta st))) round) st

/-! ## The sponge (`wild_keccak`) -/

/-- The size of a `hash`, of which there is one for a digest. -/
def mdlen : Nat := 32

/-- `200 - 2 * mdlen`. -/
def rsiz : Nat := 200 - 2 * mdlen

def rsizw : Nat := rsiz / 8

/-- The word at `((uint64_t *) in)[i]`. -/
def wordAt (inp : Blob) (i : Nat) : UInt64 := UInt64.ofNat (podOfBytes ((inp.drop (8 * i)).take 8))

/-- The words as they lie in memory. -/
def bytesOfWords (words : List UInt64) : Blob := words.flatMap fun w => bytesOfPod 8 w.toNat

/-- `for (i = 0; i < rsizw; i++) st[i] ^= ((uint64_t *) in)[i];` -/
def xorBlock (st : StateTM) (inp : Blob) : StateTM :=
  Vector.ofFn fun i => if i.val < rsizw then st[i] ^^^ wordAt inp i else st[i]

def xorMixin (st : StateTM) (mixIn : Mixin) : StateTM :=
  Vector.ofFn fun k => if h : k.val < 24 then st[k] ^^^ mixIn[k.val] else st[k]

/-- The `KECCAK_ROUNDS` rounds of a block, the first of them without a mixin. -/
def keccakRounds (cb : StateTM → Mixin) (st : StateTM) : StateTM :=
  (List.range 24).foldl
    (fun st ll => keccakf (if ll ≠ 0 then xorMixin st (cb st) else st) 1) st

/-- The loop over the whole blocks: the state and what is left of the input. -/
def wildKeccakLoop (cb : StateTM → Mixin) (st : StateTM) (inp : Blob) : StateTM × Blob :=
  if rsiz ≤ inp.length then
    wildKeccakLoop cb (keccakRounds cb (xorBlock st inp)) (inp.drop rsiz)
  else (st, inp)
termination_by inp.length
decreasing_by
  rw [List.length_drop]
  simp only [rsiz, mdlen] at *
  omega

/-- The last block: a one behind the input, zeros, the highest bit. -/
def padded (inp : Blob) : Blob :=
  (inp ++ 1 :: List.replicate (rsiz - (inp.length + 1)) 0).modify (rsiz - 1) (· ||| 0x80)

def wildKeccak (cb : StateTM → Mixin) (inp : Blob) : Blob :=
  let (st, inp) := wildKeccakLoop cb (Vector.replicate 25 0) inp
  let st := keccakRounds cb (xorBlock st (padded inp))
  (bytesOfWords st.toList).take mdlen

def wildKeccakDbl (cb : StateTM → Mixin) (inp : Blob) : Blob :=
  wildKeccak cb (wildKeccak cb inp)

end WildKeccak

open WildKeccak

/-! ## The hash of a blob (`currency_format_utils`) -/

/-- `XOR_4`. -/
def xor4 (a b c d : Hash) : Hash := a ^^^ (b ^^^ (c ^^^ d))

/-- The callback of `get_blob_longhash`: six hashes, each of four entries that the
state names. -/
def longhashMixin (height : UInt64) (accessor : UInt64 → Hash) (st : StateTM) : Mixin :=
  if height = 0 then Vector.replicate 24 0
  else
    Vector.ofFn fun k =>
      let i := k.val / 4
      hashWord (xor4 (accessor st[i * 4]) (accessor st[i * 4 + 1]) (accessor st[i * 4 + 2])
        (accessor st[i * 4 + 3])) (k.val % 4)

def hashOfMd (md : Blob) : Hash := BitVec.ofNat 256 (podOfBytes md)

def getBlobLonghash (bd : Blob) (height : UInt64) (scratchpad : List Hash) : Hash :=
  hashOfMd (wildKeccakDbl (longhashMixin height fun index =>
    scratchpad.getD (index.toNat % scratchpad.length) 0) bd)

end DarknetSpace
