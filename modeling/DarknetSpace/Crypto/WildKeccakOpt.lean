import DarknetSpace.Crypto.WildKeccak

/-!
# The unrolled proof-of-work hash (`crypto/alt`)

The sponge with an interface for absorbing pieces of a text, and the rounds written
out lane by lane. The lanes of a state are variables here (`Lanes`); the scratchpad
is an array of words, and the state is mixed with it in place, four lanes at a time.

This is the code that the miner runs, written from the Keccak team's optimised sources:
the theta step is prepared from the lanes of the round before, and rho, pi and chi are
one assignment a lane. Offsets, rates and capacities are in bits where the source has
them in bits, and where it fails for a rate or a length the result is `none`. That all
of it computes the hash of `WildKeccak` is in `LongHash`.
-/

namespace DarknetSpace

namespace WildKeccakOpt

open WildKeccak

/-- The variables `Xba` to `Xsu`. -/
structure Lanes where
  (ba be bi bo bu : UInt64)
  (ga ge gi go gu : UInt64)
  (ka ke ki ko ku : UInt64)
  (ma me mi mo mu : UInt64)
  (sa se si so su : UInt64)

/-- The variables `Ca` to `Cu`, or `Da` to `Du`. -/
structure Columns where
  (a e i o u : UInt64)

/-- `pscratchpd` and `pscratchpd_sz`: the scratchpad in words, and how many. -/
structure Pad where
  words : List UInt64
  size : Nat

def keccakF1600RoundConstants : List UInt64 :=
  [0x0000000000000001, 0x0000000000008082, 0x800000000000808a,
   0x8000000080008000, 0x000000000000808b, 0x0000000080000001,
   0x8000000080008081, 0x8000000000008009, 0x000000000000008a,
   0x0000000000000088, 0x0000000080008009, 0x000000008000000a,
   0x000000008000808b, 0x800000000000008b, 0x8000000000008089,
   0x8000000000008003, 0x8000000000008002, 0x8000000000000080,
   0x000000000000800a, 0x800000008000000a, 0x8000000080008081,
   0x8000000000008080, 0x0000000080000001, 0x8000000080008008]

/-- `ROL64`. -/
def rol64 (a offset : UInt64) : UInt64 := a <<< offset ^^^ a >>> (64 - offset)

/-! ## The rounds (`KeccakF-1600-64.inl`, `KeccakF-1600-unrolling.inl`) -/

def prepareWildTheta (x : Lanes) : Columns :=
  { a := x.ba ^^^ x.ga ^^^ x.ka * x.ma * x.sa
    e := x.be ^^^ x.ge ^^^ x.ke * x.me * x.se
    i := x.bi ^^^ x.gi ^^^ x.ki * x.mi * x.si
    o := x.bo ^^^ x.go ^^^ x.ko * x.mo * x.so
    u := x.bu ^^^ x.gu ^^^ x.ku * x.mu * x.su }

/-- From the variables `S` to the variables `T`, all of which are assigned; those
of `S` are next assigned a round later. -/
def thetaRhoPiChiIota (i : Fin 24) (c : Columns) (s : Lanes) : Lanes :=
  let d : Columns :=
    { a := c.u ^^^ rol64 c.e 1
      e := c.a ^^^ rol64 c.i 1
      i := c.e ^^^ rol64 c.o 1
      o := c.i ^^^ rol64 c.u 1
      u := c.o ^^^ rol64 c.a 1 }
  let bba := s.ba ^^^ d.a
  let bbe := rol64 (s.ge ^^^ d.e) 44
  let bbi := rol64 (s.ki ^^^ d.i) 43
  let bbo := rol64 (s.mo ^^^ d.o) 21
  let bbu := rol64 (s.su ^^^ d.u) 14
  let bga := rol64 (s.bo ^^^ d.o) 28
  let bge := rol64 (s.gu ^^^ d.u) 20
  let bgi := rol64 (s.ka ^^^ d.a) 3
  let bgo := rol64 (s.me ^^^ d.e) 45
  let bgu := rol64 (s.si ^^^ d.i) 61
  let bka := rol64 (s.be ^^^ d.e) 1
  let bke := rol64 (s.gi ^^^ d.i) 6
  let bki := rol64 (s.ko ^^^ d.o) 25
  let bko := rol64 (s.mu ^^^ d.u) 8
  let bku := rol64 (s.sa ^^^ d.a) 18
  let bma := rol64 (s.bu ^^^ d.u) 27
  let bme := rol64 (s.ga ^^^ d.a) 36
  let bmi := rol64 (s.ke ^^^ d.e) 10
  let bmo := rol64 (s.mi ^^^ d.i) 15
  let bmu := rol64 (s.so ^^^ d.o) 56
  let bsa := rol64 (s.bi ^^^ d.i) 62
  let bse := rol64 (s.go ^^^ d.o) 55
  let bsi := rol64 (s.ku ^^^ d.u) 39
  let bso := rol64 (s.ma ^^^ d.a) 41
  let bsu := rol64 (s.se ^^^ d.e) 2
  { ba := bba ^^^ (~~~ bbe &&& bbi) ^^^ keccakF1600RoundConstants.getD i 0
    be := bbe ^^^ (~~~ bbi &&& bbo)
    bi := bbi ^^^ (~~~ bbo &&& bbu)
    bo := bbo ^^^ (~~~ bbu &&& bba)
    bu := bbu ^^^ (~~~ bba &&& bbe)
    ga := bga ^^^ (~~~ bge &&& bgi)
    ge := bge ^^^ (~~~ bgi &&& bgo)
    gi := bgi ^^^ (~~~ bgo &&& bgu)
    go := bgo ^^^ (~~~ bgu &&& bga)
    gu := bgu ^^^ (~~~ bga &&& bge)
    ka := bka ^^^ (~~~ bke &&& bki)
    ke := bke ^^^ (~~~ bki &&& bko)
    ki := bki ^^^ (~~~ bko &&& bku)
    ko := bko ^^^ (~~~ bku &&& bka)
    ku := bku ^^^ (~~~ bka &&& bke)
    ma := bma ^^^ (~~~ bme &&& bmi)
    me := bme ^^^ (~~~ bmi &&& bmo)
    mi := bmi ^^^ (~~~ bmo &&& bmu)
    mo := bmo ^^^ (~~~ bmu &&& bma)
    mu := bmu ^^^ (~~~ bma &&& bme)
    sa := bsa ^^^ (~~~ bse &&& bsi)
    se := bse ^^^ (~~~ bsi &&& bso)
    si := bsi ^^^ (~~~ bso &&& bsu)
    so := bso ^^^ (~~~ bsu &&& bsa)
    su := bsu ^^^ (~~~ bsa &&& bse) }

/-- The lanes of a state are numbered by numerals. -/
local instance instNeZeroLanes : NeZero 25 := ⟨by decide⟩

def copyFromStateAndXor1088bits (state : StateTM) (input : Blob) : Lanes :=
  { ba := state.get 0 ^^^ wordAt input 0
    be := state.get 1 ^^^ wordAt input 1
    bi := state.get 2 ^^^ wordAt input 2
    bo := state.get 3 ^^^ wordAt input 3
    bu := state.get 4 ^^^ wordAt input 4
    ga := state.get 5 ^^^ wordAt input 5
    ge := state.get 6 ^^^ wordAt input 6
    gi := state.get 7 ^^^ wordAt input 7
    go := state.get 8 ^^^ wordAt input 8
    gu := state.get 9 ^^^ wordAt input 9
    ka := state.get 10 ^^^ wordAt input 10
    ke := state.get 11 ^^^ wordAt input 11
    ki := state.get 12 ^^^ wordAt input 12
    ko := state.get 13 ^^^ wordAt input 13
    ku := state.get 14 ^^^ wordAt input 14
    ma := state.get 15 ^^^ wordAt input 15
    me := state.get 16 ^^^ wordAt input 16
    mi := state.get 17
    mo := state.get 18
    mu := state.get 19
    sa := state.get 20
    se := state.get 21
    si := state.get 22
    so := state.get 23
    su := state.get 24 }

def copyToState (x : Lanes) : StateTM :=
  #v[x.ba, x.be, x.bi, x.bo, x.bu,
    x.ga, x.ge, x.gi, x.go, x.gu,
    x.ka, x.ke, x.ki, x.ko, x.ku,
    x.ma, x.me, x.mi, x.mo, x.mu,
    x.sa, x.se, x.si, x.so, x.su]

/-- `prepareScratchPadAddr`, with `scr_hashes_size` as `pscratchpd_sz >> 2`. -/
def prepareScratchPadAddr (scr : Pad) (x : UInt64) : Nat := (x.toNat % (scr.size >>> 2)) <<< 2

def readScratchPadData (scr : Pad) (adr₀ adr₁ adr₂ adr₃ off : Nat) : UInt64 :=
  scr.words.getD (adr₀ + off) 0 ^^^ scr.words.getD (adr₁ + off) 0 ^^^
    scr.words.getD (adr₂ + off) 0 ^^^ scr.words.getD (adr₃ + off) 0

def updateWildStateBlock (scr : Pad) (a b c d : UInt64) : UInt64 × UInt64 × UInt64 × UInt64 :=
  let adr₀ := prepareScratchPadAddr scr a
  let adr₁ := prepareScratchPadAddr scr b
  let adr₂ := prepareScratchPadAddr scr c
  let adr₃ := prepareScratchPadAddr scr d
  (a ^^^ readScratchPadData scr adr₀ adr₁ adr₂ adr₃ 0,
    b ^^^ readScratchPadData scr adr₀ adr₁ adr₂ adr₃ 1,
    c ^^^ readScratchPadData scr adr₀ adr₁ adr₂ adr₃ 2,
    d ^^^ readScratchPadData scr adr₀ adr₁ adr₂ adr₃ 3)

def updateWildToState (scr : Pad) (x : Lanes) : Lanes :=
  let (ba, be, bi, bo) := updateWildStateBlock scr x.ba x.be x.bi x.bo
  let (bu, ga, ge, gi) := updateWildStateBlock scr x.bu x.ga x.ge x.gi
  let (go, gu, ka, ke) := updateWildStateBlock scr x.go x.gu x.ka x.ke
  let (ki, ko, ku, ma) := updateWildStateBlock scr x.ki x.ko x.ku x.ma
  let (me, mi, mo, mu) := updateWildStateBlock scr x.me x.mi x.mo x.mu
  let (sa, se, si, so) := updateWildStateBlock scr x.sa x.se x.si x.so
  { ba, be, bi, bo, bu
    ga, ge, gi, go, gu
    ka, ke, ki, ko, ku
    ma, me, mi, mo, mu
    sa, se, si, so
    su := x.su }

def wildRound (scr : Pad) (s : Lanes) : Lanes :=
  let s := updateWildToState scr s
  thetaRhoPiChiIota 0 (prepareWildTheta s) s

/-- A round without scratchpad data and twenty-three with, between `A` and `E`. -/
def wildRounds (scr : Pad) (a : Lanes) : Lanes :=
  (wildRound scr)^[23] (thetaRhoPiChiIota 0 (prepareWildTheta a) a)

/-- `KeccakPermutationOnWordsAfterXoring1088bits`. -/
def keccakAbsorb1088bits (scr : Pad) (state : StateTM) (data : Blob) : StateTM :=
  copyToState (wildRounds scr (copyFromStateAndXor1088bits state data))

/-! ## The sponge (`KeccakSponge.c`) -/

def keccakMaximumRateInBytes : Nat := 192

/-- Lengths are in bits. -/
structure SpongeState where
  state : StateTM
  dataQueue : Blob
  rate : Nat
  capacity : Nat
  bitsInQueue : Nat
  fixedOutputLength : Nat
  squeezing : Bool
  bitsAvailableForSqueezing : Nat

def initSponge (rate capacity : Nat) : Option SpongeState :=
  if rate + capacity ≠ 1600 then none
  else if rate = 0 ∨ 1600 ≤ rate ∨ rate % 64 ≠ 0 then none
  else
    some
      { state := Vector.replicate 25 0
        dataQueue := List.replicate keccakMaximumRateInBytes 0
        rate := rate
        capacity := capacity
        bitsInQueue := 0
        fixedOutputLength := 0
        squeezing := false
        bitsAvailableForSqueezing := 0 }

/-- `memcpy` to an offset of a buffer. -/
def copyAt (buf : Blob) (offset : Nat) (bytes : Blob) : Blob :=
  buf.take offset ++ bytes ++ buf.drop (offset + bytes.length)

/-- Blocks one after the other, by the function for the rate. A hash of 256 bits has
the rate 1088; the functions for other rates are not modelled. -/
def absorbWhole (scr : Pad) (rate : Nat) : (wholeBlocks : Nat) → StateTM → Blob → Option StateTM
  | 0, state, _ => some state
  | wholeBlocks + 1, state, curData =>
    if rate = 1088 then
      absorbWhole scr rate wholeBlocks (keccakAbsorb1088bits scr state curData)
        (curData.drop (1088 / 8))
    else none

/-- `AbsorbQueue`, `AbsorbQueue2`. -/
def absorbQueue (scr : Pad) (st : SpongeState) : Option SpongeState := do
  let state ← absorbWhole scr st.rate 1 st.state st.dataQueue
  return { st with state := state, bitsInQueue := 0 }

/-- The loop of `Absorb`, from bit `i` of the data on. -/
def absorbLoop (scr : Pad) (data : Blob) (databitlen : Nat) :
    (fuel : Nat) → (i : Nat) → SpongeState → Option SpongeState
  | 0, _, _ => none
  | fuel + 1, i, st =>
    if databitlen ≤ i then some st
    else if st.bitsInQueue = 0 ∧ st.rate ≤ databitlen ∧ i ≤ databitlen - st.rate then do
      let wholeBlocks := (databitlen - i) / st.rate
      let state ← absorbWhole scr st.rate wholeBlocks st.state (data.drop (i / 8))
      absorbLoop scr data databitlen fuel (i + wholeBlocks * st.rate) { st with state := state }
    else do
      let partialBlock := (databitlen - i) % 2 ^ 32
      let partialBlock :=
        if st.rate < partialBlock + st.bitsInQueue then st.rate - st.bitsInQueue else partialBlock
      let partialByte := partialBlock % 8
      let partialBlock := partialBlock - partialByte
      let st :=
        { st with
          dataQueue := copyAt st.dataQueue (st.bitsInQueue / 8)
            ((data.drop (i / 8)).take (partialBlock / 8))
          bitsInQueue := st.bitsInQueue + partialBlock }
      let i := i + partialBlock
      let st ← if st.bitsInQueue = st.rate then absorbQueue scr st else some st
      if 0 < partialByte then
        let mask : UInt8 := 1 <<< UInt8.ofNat partialByte - 1
        absorbLoop scr data databitlen fuel (i + partialByte)
          { st with
            dataQueue := copyAt st.dataQueue (st.bitsInQueue / 8) [data.getD (i / 8) 0 &&& mask]
            bitsInQueue := st.bitsInQueue + partialByte }
      else absorbLoop scr data databitlen fuel i st

/-- A round of the loop absorbs whole blocks, or a bit at least. -/
def absorb (scr : Pad) (st : SpongeState) (data : Blob) (databitlen : Nat) : Option SpongeState :=
  if st.bitsInQueue % 8 ≠ 0 then none
  else if st.squeezing then none
  else absorbLoop scr data databitlen (databitlen + 1) 0 st

/-- The last `n` bits of a byte of a queue are or-ed with a one. -/
def orBit (queue : Blob) (bit : Nat) : Blob :=
  queue.modify (bit / 8) (· ||| 1 <<< UInt8.ofNat (bit % 8))

def padAndSwitchToSqueezingPhase (scr : Pad) (st : SpongeState) : Option SpongeState := do
  let st ←
    if st.bitsInQueue + 1 = st.rate then do
      let st ← absorbQueue scr { st with dataQueue := orBit st.dataQueue st.bitsInQueue }
      pure { st with dataQueue := copyAt st.dataQueue 0 (List.replicate (st.rate / 8) 0) }
    else do
      let used := (st.bitsInQueue + 7) / 8
      let dataQueue := copyAt st.dataQueue used (List.replicate (st.rate / 8 - used) 0)
      pure { st with dataQueue := orBit dataQueue st.bitsInQueue }
  let st ← absorbQueue scr { st with dataQueue := orBit st.dataQueue (st.rate - 1) }
  return { st with
    dataQueue := copyAt st.dataQueue 0 (bytesOfWords (st.state.toList.take (st.rate / 64)))
    bitsAvailableForSqueezing := st.rate
    squeezing := true }

/-- The loop of `Squeeze`, from bit `i` of the output on. Output beyond the first
block takes another permutation, which is not modelled. -/
def squeezeLoop (outputLength : Nat) :
    (fuel : Nat) → (i : Nat) → SpongeState → (output : Blob) → Option Blob
  | 0, _, _, _ => none
  | fuel + 1, i, st, output =>
    if outputLength ≤ i then some output
    else if st.bitsAvailableForSqueezing = 0 then none
    else
      let partialBlock :=
        if outputLength - i < st.bitsAvailableForSqueezing then outputLength - i
        else st.bitsAvailableForSqueezing
      let bytes := (st.dataQueue.drop ((st.rate - st.bitsAvailableForSqueezing) / 8)).take
        (partialBlock / 8)
      squeezeLoop outputLength fuel (i + partialBlock)
        { st with bitsAvailableForSqueezing := st.bitsAvailableForSqueezing - partialBlock }
        (output ++ bytes)

def squeeze (scr : Pad) (st : SpongeState) (outputLength : Nat) : Option Blob := do
  let st ← if ¬ st.squeezing then padAndSwitchToSqueezingPhase scr st else some st
  if outputLength % 8 ≠ 0 then none
  else squeezeLoop outputLength (outputLength + 1) 0 st []

/-! ## Hashes (`KeccakNISTInterface.c`) -/

def init (hashbitlen : Nat) : Option SpongeState := do
  let st ←
    match hashbitlen with
    | 0 => initSponge 1024 576
    | 224 => initSponge 1152 448
    | 256 => initSponge 1088 512
    | 384 => initSponge 832 768
    | 512 => initSponge 576 1024
    | _ => none
  return { st with fixedOutputLength := hashbitlen }

def update (scr : Pad) (st : SpongeState) (data : Blob) (databitlen : Nat) : Option SpongeState :=
  if databitlen % 8 = 0 then absorb scr st data databitlen
  else do
    let st ← absorb scr st data (databitlen - databitlen % 8)
    let lastByte := data.getD (databitlen / 8) 0 >>> UInt8.ofNat (8 - databitlen % 8)
    absorb scr st [lastByte] (databitlen % 8)

/-- `Final`. -/
def finish (scr : Pad) (st : SpongeState) : Option Blob := squeeze scr st st.fixedOutputLength

/-- `Hash`; none for any result but `SUCCESS`. -/
def hash (scr : Pad) (hashbitlen : Nat) (data : Blob) (databitlen : Nat) : Option Blob :=
  if hashbitlen ≠ 224 ∧ hashbitlen ≠ 256 ∧ hashbitlen ≠ 384 ∧ hashbitlen ≠ 512 then none
  else do
    let st ← init hashbitlen
    let st ← update scr st data databitlen
    finish scr st

/-- The length of a text in memory is small enough for its bits to be counted in a
word. -/
def wildKeccakDblOpt (scr : Pad) (inp : Blob) : Option Blob := do
  let md ← hash scr 256 inp (inp.length * 8)
  hash scr 256 md (mdlen * 8)

/-- The scratchpad as an array of words. -/
def padOfHashes (scratchpad : List Hash) : Pad :=
  ⟨scratchpad.flatMap fun h => (List.range 4).map (hashWord h), scratchpad.length * 4⟩

end WildKeccakOpt

open WildKeccakOpt

def getBlobLonghashOpt (blob : Blob) (scratchpad : List Hash) : Option Hash :=
  if scratchpad = [] then some (getBlobLonghash blob 0 scratchpad)
  else (wildKeccakDblOpt (padOfHashes scratchpad) blob).map hashOfMd

end DarknetSpace
