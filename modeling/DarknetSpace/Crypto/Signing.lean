import DarknetSpace.Crypto.RingSignature

/-!
# Making ring signatures (`crypto.cpp`)

For the keys of others `generate_ring_signature` draws both scalars and computes
the commitments as the check will; for its own key it commits to a random `k`
first. The challenge left over for that key makes the sum come out as the hash,
and the secret makes the commitments come out again. Both sides keep a sum of the
challenges, and the signer's lacks his own until the end: past his place in the
ring the two sums differ by it.

The proof goes along the two loops side by side, place by place, with the sums as what
ties them together. Main result: `honest_signature_accepted`, for every ring and every
place in it, whatever was drawn; the group is any that has the order of the curve, and
the hashes any functions.
-/

namespace DarknetSpace

/-- A signature of two scalars. -/
def signature (c r : Nat) : Signature := BitVec.ofNat 512 (c + r * 2 ^ 256)

theorem sigC_signature {c : Nat} (hc : c < 2 ^ 256) (r : Nat) : sigC (signature c r) = c := by
  unfold sigC signature
  rw [BitVec.toNat_ofNat]
  omega

theorem sigR_signature {c r : Nat} (hc : c < 2 ^ 256) (hr : r < 2 ^ 256) :
    sigR (signature c r) = r := by
  unfold sigR signature
  rw [BitVec.toNat_ofNat]
  omega

/-- What the loop of `generate_ring_signature` goes on with: how often it has
called for random bytes, `k`, and the sum of the challenges. -/
structure Signing where
  draws : Nat
  k : Nat
  sum : Nat

namespace Curve

variable {Γ : Type} [AddCommGroup Γ] (C : Curve Γ) (fromfe : PublicKey → Γ)

/-- `random_scalar`, of the 64 bytes it draws. -/
def randomScalar (bytes : BitVec 512) : Nat := bytes.toNat % C.l

def scSub (a b : Nat) : Nat := (a + (C.l - b % C.l)) % C.l

/-- `c - a * b`. -/
def scMulsub (a b c : Nat) : Nat := C.scSub c (a * b)

/-- The loop over the ring: the commitments and the signatures, of which the
signer's is not written yet. `none` is `abort()`. -/
def signLoop (image : Γ) (secIndex : Nat) (random : Nat → BitVec 512) :
    (i : Nat) → List PublicKey → Signing →
    Option (List (EcPoint × EcPoint) × List Signature × Signing)
  | _, [], st => some ([], [], st)
  | i, pub :: rest, st =>
    if i = secIndex then
      let k := C.randomScalar (random st.draws)
      let a := C.tobytes (k • C.base)
      let b := C.tobytes (k • hashToEc fromfe pub)
      match signLoop image secIndex random (i + 1) rest { st with draws := st.draws + 1, k } with
      | none => none
      | some (buf, sig, st) => some ((a, b) :: buf, nullSig :: sig, st)
    else
      let c := C.randomScalar (random st.draws)
      let r := C.randomScalar (random (st.draws + 1))
      match C.frombytes pub with
      | none => none
      | some key =>
        let a := C.tobytes (c • key + r • C.base)
        let b := C.tobytes (r • hashToEc fromfe pub + c • image)
        match signLoop image secIndex random (i + 1) rest
            { st with draws := st.draws + 2, sum := (st.sum + c) % C.l } with
        | none => none
        | some (buf, sig, st) => some ((a, b) :: buf, signature c r :: sig, st)

/-- `generate_ring_signature`; `random` has what `generate_random_bytes` gives,
call by call. -/
def generateRingSignature (H : Hashes Γ) (prefixHash : Hash) (image : KeyImage)
    (pubs : List PublicKey) (sec secIndex : Nat) (random : Nat → BitVec 512) :
    Option (List Signature) :=
  match C.frombytes image with
  | none => none
  | some point =>
    match C.signLoop H.fromfe point secIndex random 0 pubs ⟨0, 0, 0⟩ with
    | none => none
    | some (buf, sig, st) =>
      let h := (H.fastHash prefixHash buf).toNat % C.l
      let c := C.scSub h st.sum
      let r := C.scMulsub c sec st.k
      some (sig.set secIndex (signature c r))

/-! ## The scalars -/

theorem randomScalar_lt (bytes : BitVec 512) : C.randomScalar bytes < C.l :=
  Nat.mod_lt _ C.prime.pos

theorem scSub_lt (a b : Nat) : C.scSub a b < C.l :=
  Nat.mod_lt _ C.prime.pos

/-- What was taken off is there to be added. -/
theorem add_scSub (a b : Nat) : b + C.scSub a b ≡ a [MOD C.l] := by
  have hb : b % C.l < C.l := Nat.mod_lt _ C.prime.pos
  calc b + C.scSub a b ≡ b % C.l + (a + (C.l - b % C.l)) [MOD C.l] :=
        (Nat.mod_modEq b C.l).symm.add (Nat.mod_modEq _ C.l)
    _ = a + C.l := by omega
    _ ≡ a [MOD C.l] := Nat.add_modEq_right

theorem smul_congr {p : Γ} (hp : C.l • p = 0) {m n : Nat} (h : m ≡ n [MOD C.l]) :
    m • p = n • p :=
  nsmul_eq_nsmul_iff_modEq.2 (h.of_dvd (addOrderOf_dvd_iff_nsmul_eq_zero.2 hp))

theorem reduced_signature {c r : Nat} (hc : c < C.l) (hr : r < C.l) :
    C.Reduced (signature c r) := by
  have hc' := hc.trans C.l_lt
  have hr' := hr.trans C.l_lt
  refine ⟨?_, ?_⟩
  · rw [sigC_signature hc' r]
    exact decide_eq_true hc
  · rw [sigR_signature hc' hr']
    exact decide_eq_true hr

/-! ## One place of the ring -/

/-- The check at one place, with a signature of two reduced scalars. -/
theorem ringLoop_cons {image key : Γ} {pub : PublicKey} {c r sum sum' : Nat}
    {rest : List (PublicKey × Signature)} {buf : List (EcPoint × EcPoint)} (hc : c < C.l)
    (hr : r < C.l) (hkey : C.frombytes pub = some key)
    (hrest : C.ringLoop fromfe image rest ((sum + c) % C.l) = .ok (buf, sum')) :
    C.ringLoop fromfe image ((pub, signature c r) :: rest) sum =
      .ok ((C.tobytes (c • key + r • C.base),
        C.tobytes (r • hashToEc fromfe pub + c • image)) :: buf, sum') := by
  have hred := C.reduced_signature hc hr
  have hc' := sigC_signature (hc.trans C.l_lt) r
  have hr' := sigR_signature (hc.trans C.l_lt) (hr.trans C.l_lt)
  unfold ringLoop
  rw [if_neg (fun hn => hn.elim (fun h => h hred.1) (fun h => h hred.2)), hkey, hc', hr']
  simp only
  rw [hrest]

/-- The signer's place: his secret opens both commitments to `k`. -/
theorem commitments {sec c r k : Nat} (pub : PublicKey) (hr : r = C.scMulsub c sec k) :
    c • sec • C.base + r • C.base = k • C.base ∧
      r • hashToEc fromfe pub + c • sec • hashToEc fromfe pub = k • hashToEc fromfe pub := by
  have hmod : c * sec + r ≡ k [MOD C.l] := by
    rw [hr]
    exact C.add_scSub k (c * sec)
  refine ⟨?_, ?_⟩
  · rw [← mul_nsmul', ← add_nsmul]
    exact C.smul_congr C.base_order hmod
  · rw [← mul_nsmul', ← add_nsmul, add_comm r]
    exact C.smul_congr (C.hashToEc_order fromfe pub) hmod

/-! ## The loops side by side -/

section

variable {fromfe} {image : Γ} {secIndex : Nat} {random : Nat → BitVec 512}

theorem signLoop_isSome {pubs : List PublicKey} (i : Nat) (st : Signing)
    (hkeys : ∀ pub ∈ pubs, (C.frombytes pub).isSome = true) :
    ∃ buf sig st', C.signLoop fromfe image secIndex random i pubs st = some (buf, sig, st') := by
  induction pubs generalizing i st with
  | nil => exact ⟨[], [], st, rfl⟩
  | cons pub rest ih =>
    obtain ⟨hkey, hkeys⟩ := List.forall_mem_cons.1 hkeys
    obtain ⟨key, hkey⟩ := Option.isSome_iff_exists.1 hkey
    unfold signLoop
    by_cases hi : i = secIndex
    · obtain ⟨buf, sig, st', h⟩ := ih (i + 1)
        { st with draws := st.draws + 1, k := C.randomScalar (random st.draws) } hkeys
      rw [if_pos hi]
      simp only
      rw [h]
      exact ⟨_, _, _, rfl⟩
    · obtain ⟨buf, sig, st', h⟩ := ih (i + 1)
        { st with draws := st.draws + 2, sum := (st.sum + C.randomScalar (random st.draws)) % C.l }
        hkeys
      rw [if_neg hi, hkey]
      simp only
      rw [h]
      exact ⟨_, _, _, rfl⟩

/-- A place that is not the signer's, and the places behind it. -/
theorem signLoop_cons_other {i : Nat} {pub : PublicKey} {rest : List PublicKey} {st : Signing}
    {r : List (EcPoint × EcPoint) × List Signature × Signing} (hi : i ≠ secIndex)
    (h : C.signLoop fromfe image secIndex random i (pub :: rest) st = some r) :
    ∃ key c r' buf sig st' draws, C.frombytes pub = some key ∧ c < C.l ∧ r' < C.l ∧
      C.signLoop fromfe image secIndex random (i + 1) rest
        ⟨draws, st.k, (st.sum + c) % C.l⟩ = some (buf, sig, st') ∧
      r = ((C.tobytes (c • key + r' • C.base),
        C.tobytes (r' • hashToEc fromfe pub + c • image)) :: buf, signature c r' :: sig, st') := by
  unfold signLoop at h
  rw [if_neg hi] at h
  simp only at h
  split at h
  · cases h
  · next key hkey =>
    split at h
    · cases h
    · next buf sig st' hrest =>
      cases h
      exact ⟨key, _, _, buf, sig, st', _, hkey, C.randomScalar_lt _, C.randomScalar_lt _, hrest, rfl⟩

/-- Past the signer the loops do the same, and their sums stay as far apart as
they were. -/
theorem ringLoop_signLoop_past {pubs : List PublicKey} {i d sum : Nat} {st st' : Signing}
    {buf : List (EcPoint × EcPoint)} {sig : List Signature} (hi : secIndex < i)
    (h : C.signLoop fromfe image secIndex random i pubs st = some (buf, sig, st'))
    (hlt : sum < C.l) (hsum : sum ≡ st.sum + d [MOD C.l]) :
    st'.k = st.k ∧ sig.length = pubs.length ∧ ∃ sum', sum' < C.l ∧ sum' ≡ st'.sum + d [MOD C.l] ∧
      C.ringLoop fromfe image (pubs.zip sig) sum = .ok (buf, sum') := by
  induction pubs generalizing i sum st buf sig with
  | nil =>
    cases h
    exact ⟨rfl, rfl, sum, hlt, hsum, rfl⟩
  | cons pub rest ih =>
    obtain ⟨key, c, r, buf, sig, st', draws, hkey, hc, hr, hrest, heq⟩ :=
      C.signLoop_cons_other (by omega) h
    cases heq
    have hstep : (sum + c) % C.l ≡ (st.sum + c) % C.l + d [MOD C.l] := by
      calc (sum + c) % C.l ≡ sum + c [MOD C.l] := Nat.mod_modEq _ _
        _ ≡ st.sum + d + c [MOD C.l] := hsum.add_right c
        _ = st.sum + c + d := by omega
        _ ≡ (st.sum + c) % C.l + d [MOD C.l] := ((Nat.mod_modEq _ _).symm).add_right d
    obtain ⟨hk, hlen, sum', hlt', hsum', hloop⟩ :=
      ih (by omega) hrest (Nat.mod_lt _ C.prime.pos) hstep
    exact ⟨hk, congrArg (· + 1) hlen, sum', hlt', hsum', C.ringLoop_cons fromfe hc hr hkey hloop⟩

/-- The whole of the ring, with the signer's signature put in its place. -/
theorem ringLoop_signLoop {pubs : List PublicKey} {i sec c r sum : Nat} {st st' : Signing}
    {buf : List (EcPoint × EcPoint)} {sig : List Signature} {own : PublicKey}
    (h : C.signLoop fromfe image secIndex random i pubs st = some (buf, sig, st'))
    (hi : i ≤ secIndex) (hown : pubs[secIndex - i]? = some own)
    (hkey : C.frombytes own = some (sec • C.base)) (himage : image = sec • hashToEc fromfe own)
    (hc : c < C.l) (hr : r = C.scMulsub c sec st'.k) (hlt : sum < C.l)
    (hsum : sum ≡ st.sum [MOD C.l]) :
    sig.length = pubs.length ∧ ∃ sum', sum' < C.l ∧ sum' ≡ st'.sum + c [MOD C.l] ∧
      C.ringLoop fromfe image (pubs.zip (sig.set (secIndex - i) (signature c r))) sum =
        .ok (buf, sum') := by
  have hrlt : r < C.l := by
    rw [hr]
    exact C.scSub_lt _ _
  induction pubs generalizing i sum st buf sig with
  | nil => cases hown
  | cons pub rest ih =>
    by_cases hplace : i = secIndex
    · rw [hplace, Nat.sub_self] at hown ⊢
      obtain rfl : pub = own := Option.some_inj.1 hown
      unfold signLoop at h
      rw [if_pos hplace] at h
      simp only at h
      split at h
      · cases h
      · next buf sig st' hrest =>
        cases h
        have hstep : (sum + c) % C.l ≡ st.sum + c [MOD C.l] :=
          (Nat.mod_modEq _ _).trans (hsum.add_right c)
        obtain ⟨hk, hlen, sum', hlt', hsum', hloop⟩ :=
          C.ringLoop_signLoop_past (by omega) hrest (Nat.mod_lt _ C.prime.pos) hstep
        obtain ⟨ha, hb⟩ := C.commitments fromfe pub hr
        rw [hk, ← himage] at hb
        rw [hk] at ha
        refine ⟨congrArg (· + 1) hlen, sum', hlt', hsum', ?_⟩
        rw [List.set_cons_zero, List.zip_cons_cons, C.ringLoop_cons fromfe hc hrlt hkey hloop,
          ha, hb]
    · obtain ⟨key, c', r', buf, sig, st', draws, hkey', hc', hr', hrest, heq⟩ :=
        C.signLoop_cons_other hplace h
      cases heq
      have hnext : secIndex - i = secIndex - (i + 1) + 1 := by omega
      rw [hnext, List.getElem?_cons_succ] at hown
      have hstep : (sum + c') % C.l ≡ (st.sum + c') % C.l [MOD C.l] :=
        ((Nat.mod_modEq _ _).trans (hsum.add_right c')).trans (Nat.mod_modEq _ _).symm
      obtain ⟨hlen, sum', hlt', hsum', hloop⟩ :=
        ih hrest (by omega) hown (Nat.mod_lt _ C.prime.pos) hstep
      refine ⟨congrArg (· + 1) hlen, sum', hlt', hsum', ?_⟩
      rw [hnext, List.set_cons_succ, List.zip_cons_cons]
      exact C.ringLoop_cons fromfe hc' hr' hkey' hloop

end

/-- The signature is made, and the check's sum of challenges is the hash. -/
theorem generateRingSignature_spec (H : Hashes Γ) (prefixHash : Hash) {pubs : List PublicKey}
    {sec secIndex : Nat} (random : Nat → BitVec 512) {own : PublicKey} {image : KeyImage}
    (hkeys : ∀ pub ∈ pubs, (C.frombytes pub).isSome = true) (hown : pubs[secIndex]? = some own)
    (hkey : C.frombytes own = some (sec • C.base))
    (hpoint : C.frombytes image = some (sec • hashToEc H.fromfe own)) :
    ∃ sigs, C.generateRingSignature H prefixHash image pubs sec secIndex random = some sigs ∧
      sigs.length = pubs.length ∧
      C.checkRingSignature H prefixHash image pubs sigs = some true := by
  obtain ⟨buf, sig, st, hloop⟩ : ∃ buf sig st, C.signLoop H.fromfe (sec • hashToEc H.fromfe own)
      secIndex random 0 pubs ⟨0, 0, 0⟩ = some (buf, sig, st) :=
    C.signLoop_isSome 0 ⟨0, 0, 0⟩ hkeys
  obtain ⟨c, hc⟩ : ∃ c, C.scSub ((H.fastHash prefixHash buf).toNat % C.l) st.sum = c := ⟨_, rfl⟩
  have hclt : c < C.l := by
    rw [← hc]
    exact C.scSub_lt _ _
  obtain ⟨hlen, sum', hlt, hsum, hring⟩ :=
    C.ringLoop_signLoop hloop (Nat.zero_le _) hown hkey rfl hclt rfl C.prime.pos rfl
  refine ⟨sig.set secIndex (signature c (C.scMulsub c sec st.k)), ?_, ?_, ?_⟩
  · unfold generateRingSignature
    rw [hpoint]
    simp only
    rw [hloop]
    simp only
    rw [hc]
  · rw [List.length_set, hlen]
  · -- the sum of all challenges is the hash
    have hhash : sum' = (H.fastHash prefixHash buf).toNat % C.l := by
      rw [← hc] at hsum
      exact (hsum.trans (C.add_scSub _ st.sum)).eq_of_lt_of_lt hlt (Nat.mod_lt _ C.prime.pos)
    unfold checkRingSignature
    rw [hpoint]
    simp only
    rw [Nat.sub_zero] at hring
    rw [hring]
    simp only
    rw [← hhash, Nat.add_sub_cancel' hlt.le, Nat.mod_self]
    rfl

/-- Whatever the signer draws, the check accepts what he makes of his own key, of
its image and of any other valid keys. -/
theorem honest_signature_accepted (H : Hashes Γ) (prefixHash : Hash) (image : KeyImage)
    (pubs : List PublicKey) (sec secIndex : Nat) (random : Nat → BitVec 512) (own : PublicKey)
    (hkeys : ∀ pub ∈ pubs, (C.frombytes pub).isSome = true) (hown : pubs[secIndex]? = some own)
    (hkey : C.frombytes own = some (sec • C.base))
    (himage : C.frombytes image = some (sec • hashToEc H.fromfe own)) :
    ∃ sigs, C.generateRingSignature H prefixHash image pubs sec secIndex random = some sigs ∧
      sigs.length = pubs.length ∧
      C.checkRingSignature H prefixHash image pubs sigs = some true :=
  C.generateRingSignature_spec H prefixHash random hkeys hown hkey himage

end Curve

/-- The key of the secret 3 behind the key of the secret 5. -/
theorem honest_signature_accepted_two :
    ∃ sigs, SmallCurve.curve.generateRingSignature SmallCurve.hashes SmallCurve.prefixHash
        SmallCurve.image [40, SmallCurve.pub] 3 1 (fun n => BitVec.ofNat 512 (7 * n + 2)) = some sigs ∧
      sigs.length = [40, SmallCurve.pub].length ∧
      SmallCurve.curve.checkRingSignature SmallCurve.hashes SmallCurve.prefixHash SmallCurve.image
        [40, SmallCurve.pub] sigs = some true := by
  have himage : SmallCurve.curve.frombytes SmallCurve.image =
      some (3 • Curve.hashToEc SmallCurve.hashes.fromfe SmallCurve.pub) := by rfl
  have hkeys : ∀ pub ∈ [40, SmallCurve.pub], (SmallCurve.curve.frombytes pub).isSome = true := by
    intro pub hpub
    rcases List.mem_pair.1 hpub with rfl | rfl <;> rfl
  exact SmallCurve.curve.honest_signature_accepted SmallCurve.hashes SmallCurve.prefixHash
    SmallCurve.image [40, SmallCurve.pub] 3 1 (fun n => BitVec.ofNat 512 (7 * n + 2))
    SmallCurve.pub hkeys rfl (by rfl) himage

end DarknetSpace
