import Mathlib.Algebra.Group.Basic
import Mathlib.GroupTheory.OrderOfElement
import Mathlib.Data.ZMod.Basic
import Mathlib.Data.Nat.Prime.Basic
import DarknetSpace.Chain.Inputs

/-!
# Ring signatures (`crypto.cpp`)

The curve is an abelian group of order `8 * l`; the `ge_*` routines are its
operations and the `sc_*` routines arithmetic modulo `l`. `check_ring_signature`
multiplies the key image by the challenges and by nothing else, so a part of
the image that the challenges kill is never seen. `generate_key_image` only
makes images of order `l`; the check does not ask for that.

Main result: `image_in_subgroup_iff`. It says when acceptance means that the image has
the right order, for every ring, and for a ring of one key with a known secret, when it
means that the image is the one that `generate_key_image` makes. The condition is about
the bytes of the image and the scalars, not about the check. The curve of the last
section is a small group in which a signature with a stray image can be written down.
-/

namespace DarknetSpace

abbrev EcPoint := BitVec 256

/-- The group with its encoding. -/
structure Curve (Γ : Type) [AddCommGroup Γ] where
  l : Nat
  prime : l.Prime
  /-- Scalars are 32 bytes. -/
  l_lt : l < 2 ^ 256
  card : Nat.card Γ = 8 * l
  base : Γ
  base_order : l • base = 0
  /-- `ge_frombytes_vartime`, `none` where it does not return 0. -/
  frombytes : EcPoint → Option Γ
  /-- `ge_tobytes`. -/
  tobytes : Γ → EcPoint
  frombytes_tobytes : ∀ p, frombytes (tobytes p) = some p

/-- `cn_fast_hash` where the signatures use it: of a key, taken to the curve by
`ge_fromfe_frombytes_vartime`, and of the buffer of commitments. -/
structure Hashes (Γ : Type) where
  fromfe : PublicKey → Γ
  fastHash : Hash → List (EcPoint × EcPoint) → Hash

/-- The two scalars of a signature. -/
def sigC (sig : Signature) : Nat := sig.toNat % 2 ^ 256
def sigR (sig : Signature) : Nat := sig.toNat / 2 ^ 256

/-- How the loop of `check_ring_signature` leaves early. -/
inductive RingExit where
  | refused
  | aborted
  deriving DecidableEq

namespace Curve

variable {Γ : Type} [AddCommGroup Γ] (C : Curve Γ) (fromfe : PublicKey → Γ)

/-- `hash_to_ec`. -/
def hashToEc (key : PublicKey) : Γ := 8 • fromfe key

/-- `generate_key_image`. -/
def generateKeyImage (pub : PublicKey) (sec : Nat) : KeyImage :=
  C.tobytes (sec • hashToEc fromfe pub)

/-- `sc_check`: reduced modulo `l`. -/
def scCheck (s : Nat) : Bool := decide (s < C.l)

/-- The loop over the ring: the commitments and the sum of the challenges. -/
def ringLoop (image : Γ) : List (PublicKey × Signature) → Nat →
    Except RingExit (List (EcPoint × EcPoint) × Nat)
  | [], sum => .ok ([], sum)
  | (pub, sig) :: rest, sum =>
    if ¬ C.scCheck (sigC sig) ∨ ¬ C.scCheck (sigR sig) then .error .refused
    else
      match C.frombytes pub with
      | none => .error .aborted
      | some key =>
        let a := C.tobytes (sigC sig • key + sigR sig • C.base)
        let b := C.tobytes (sigR sig • hashToEc fromfe pub + sigC sig • image)
        match ringLoop image rest ((sum + sigC sig) % C.l) with
        | .ok (buf, sum) => .ok ((a, b) :: buf, sum)
        | .error e => .error e

/-- `check_ring_signature`; `none` is `abort()`. -/
def checkRingSignature (H : Hashes Γ) (prefixHash : Hash) (image : KeyImage) (pubs : List PublicKey)
    (sigs : List Signature) : Option Bool :=
  match C.frombytes image with
  | none => some false
  | some point =>
    match C.ringLoop H.fromfe point (pubs.zip sigs) 0 with
    | .error .refused => some false
    | .error .aborted => none
    | .ok (buf, sum) =>
      let h := (H.fastHash prefixHash buf).toNat % C.l
      some (decide ((h + (C.l - sum)) % C.l = 0))

/-- The point of the image is in the subgroup of order `l`. -/
def InSubgroup (image : KeyImage) : Prop := ∃ p, C.frombytes image = some p ∧ C.l • p = 0

/-! ## Images of a key -/

/-- The factor 8 brings every hash into the subgroup. -/
theorem hashToEc_order (key : PublicKey) : C.l • hashToEc fromfe key = 0 := by
  unfold hashToEc
  rw [← mul_nsmul, ← C.card]
  exact card_nsmul_eq_zero'

theorem inSubgroup_generateKeyImage (pub : PublicKey) (sec : Nat) :
    C.InSubgroup (C.generateKeyImage fromfe pub sec) := by
  refine ⟨sec • hashToEc fromfe pub, C.frombytes_tobytes _, ?_⟩
  rw [← mul_nsmul, mul_comm, mul_nsmul, hashToEc_order, nsmul_zero]

/-! ## What the check does not see -/

/-- A part of the image that every challenge kills does not reach the buffer. -/
theorem ringLoop_add {p t : Γ} {ring : List (PublicKey × Signature)}
    (ht : ∀ e ∈ ring, sigC e.2 • t = 0) (sum : Nat) :
    C.ringLoop fromfe (p + t) ring sum = C.ringLoop fromfe p ring sum := by
  induction ring generalizing sum with
  | nil => rfl
  | cons e rest ih =>
    obtain ⟨pub, sig⟩ := e
    obtain ⟨hhead, hrest⟩ := List.forall_mem_cons.1 ht
    have hkill : sigC sig • (p + t) = sigC sig • p := by
      rw [nsmul_add, hhead, add_zero]
    unfold ringLoop
    rw [hkill, ih hrest]

theorem checkRingSignature_add (H : Hashes Γ) {p t : Γ} {image image' : KeyImage}
    (hp : C.frombytes image = some p) (hp' : C.frombytes image' = some (p + t))
    {sigs : List Signature} (ht : ∀ sig ∈ sigs, sigC sig • t = 0) (prefixHash : Hash)
    (pubs : List PublicKey) :
    C.checkRingSignature H prefixHash image' pubs sigs =
      C.checkRingSignature H prefixHash image pubs sigs := by
  have hring : ∀ e ∈ pubs.zip sigs, sigC e.2 • t = 0 := by
    intro e he
    exact ht e.2 (List.of_mem_zip he).2
  unfold checkRingSignature
  rw [hp, hp']
  simp only
  rw [C.ringLoop_add H.fromfe hring]

/-- Both scalars of a signature are reduced. -/
def Reduced (sig : Signature) : Prop := C.scCheck (sigC sig) = true ∧ C.scCheck (sigR sig) = true

theorem ringLoop_ok_of_reduced (point : Γ) {ring : List (PublicKey × Signature)}
    (hkeys : ∀ e ∈ ring, (C.frombytes e.1).isSome = true) (hred : ∀ e ∈ ring, C.Reduced e.2)
    {sum : Nat} (hsum : sum < C.l) :
    ∃ buf sum', C.ringLoop fromfe point ring sum = .ok (buf, sum') ∧ sum' < C.l := by
  induction ring generalizing sum with
  | nil => exact ⟨[], sum, rfl, hsum⟩
  | cons e rest ih =>
    obtain ⟨pub, sig⟩ := e
    obtain ⟨hkey, hkeys⟩ := List.forall_mem_cons.1 hkeys
    obtain ⟨hsig, hred⟩ := List.forall_mem_cons.1 hred
    obtain ⟨key, hkey⟩ := Option.isSome_iff_exists.1 hkey
    obtain ⟨buf, sum', hrest, hsum'⟩ := ih hkeys hred (Nat.mod_lt (sum + sigC sig) C.prime.pos)
    refine ⟨(C.tobytes (sigC sig • key + sigR sig • C.base),
      C.tobytes (sigR sig • hashToEc fromfe pub + sigC sig • point)) :: buf, sum', ?_, hsum'⟩
    have hkey' : C.frombytes pub = some key := hkey
    unfold ringLoop
    rw [if_neg (fun hn => hn.elim (fun h => h hsig.1) (fun h => h hsig.2)), hkey']
    simp only
    rw [hrest]

theorem reduced_of_ringLoop {point : Γ} {ring : List (PublicKey × Signature)} {sum : Nat}
    {r : List (EcPoint × EcPoint) × Nat} (h : C.ringLoop fromfe point ring sum = .ok r) :
    ∀ e ∈ ring, C.Reduced e.2 := by
  induction ring generalizing sum r with
  | nil => exact fun e he => absurd he List.not_mem_nil
  | cons e rest ih =>
    obtain ⟨pub, sig⟩ := e
    unfold ringLoop at h
    split at h
    · cases h
    · next hred =>
      rw [not_or, not_not, not_not] at hred
      split at h
      · cases h
      · simp only at h
        split at h
        · next buf sum' hrest => exact List.forall_mem_cons.2 ⟨hred, ih hrest⟩
        · cases h

/-- Some hash makes the check pass, unless the image's bytes are no point or a
scalar is not reduced. -/
theorem accepted_iff (prefixHash : Hash) (image : KeyImage) {pubs : List PublicKey}
    {sigs : List Signature} (hlen : sigs.length = pubs.length)
    (hkeys : ∀ pub ∈ pubs, (C.frombytes pub).isSome = true) :
    (∃ fastHash, C.checkRingSignature ⟨fromfe, fastHash⟩ prefixHash image pubs sigs = some true) ↔
      C.frombytes image ≠ none ∧ ∀ sig ∈ sigs, C.Reduced sig := by
  constructor
  · rintro ⟨fastHash, haccept⟩
    unfold checkRingSignature at haccept
    cases hp : C.frombytes image with
    | none =>
      rw [hp] at haccept
      cases haccept
    | some p =>
      refine ⟨Option.some_ne_none p, fun sig hsig => ?_⟩
      rw [hp] at haccept
      simp only at haccept
      split at haccept
      · cases haccept
      · cases haccept
      · next buf sum hloop =>
        have hall := C.reduced_of_ringLoop fromfe hloop
        obtain ⟨i, hi⟩ := List.getElem?_of_mem hsig
        have hilt := (List.getElem?_eq_some_iff.1 hi).1
        have hpub : pubs[i]? = some (pubs.get ⟨i, by omega⟩) := List.getElem?_eq_getElem (by omega)
        refine hall (pubs.get ⟨i, by omega⟩, sig) (List.mem_of_getElem? (i := i) ?_)
        rw [List.getElem?_zip_eq_some]
        exact ⟨hpub, hi⟩
  · rintro ⟨hpoint, hred⟩
    obtain ⟨p, hp⟩ := Option.ne_none_iff_exists'.1 hpoint
    -- a hash that gives the sum of the challenges
    obtain ⟨buf, sum, hloop, hsum⟩ := C.ringLoop_ok_of_reduced fromfe p
      (fun e he => hkeys e.1 (List.of_mem_zip he).1)
      (fun e he => hred e.2 (List.of_mem_zip he).2) C.prime.pos
    refine ⟨fun _ _ => BitVec.ofNat 256 sum, ?_⟩
    have hsmall : (BitVec.ofNat 256 sum).toNat % C.l = sum := by
      rw [BitVec.toNat_ofNat, Nat.mod_eq_of_lt (hsum.trans C.l_lt), Nat.mod_eq_of_lt hsum]
    have hzero : (sum + (C.l - sum)) % C.l = 0 := by
      rw [Nat.add_sub_cancel' hsum.le, Nat.mod_self]
    unfold checkRingSignature
    rw [hp]
    simp only
    rw [hloop]
    simp only
    rw [hsmall, hzero]
    rfl

/-- What is asked of an accepted image holds whatever the hash exactly if the image
has it, or is not accepted under any. -/
theorem accepted_only_iff (prefixHash : Hash) (image : KeyImage) {pubs : List PublicKey}
    {sigs : List Signature} (hlen : sigs.length = pubs.length)
    (hkeys : ∀ pub ∈ pubs, (C.frombytes pub).isSome = true) (P : Prop) :
    (∀ fastHash, C.checkRingSignature ⟨fromfe, fastHash⟩ prefixHash image pubs sigs = some true →
        P) ↔
      C.frombytes image = none ∨ P ∨ ∃ sig ∈ sigs, ¬ C.Reduced sig := by
  rw [← exists_imp, C.accepted_iff fromfe prefixHash image hlen hkeys]
  constructor
  · intro h
    by_cases hpoint : C.frombytes image = none
    · exact .inl hpoint
    · by_cases hred : ∀ sig ∈ sigs, C.Reduced sig
      · exact .inr (.inl (h ⟨hpoint, hred⟩))
      · obtain ⟨sig, hsig⟩ := not_forall.1 hred
        obtain ⟨hmem, hbad⟩ := Classical.not_imp.1 hsig
        exact .inr (.inr ⟨sig, hmem, hbad⟩)
  · rintro (hnone | hP | ⟨sig, hmem, hbad⟩) ⟨hpoint, hred⟩
    · exact absurd hnone hpoint
    · exact hP
    · exact absurd (hred sig hmem) hbad

/-- An accepted image has the right order, whatever the hash, exactly if its bytes
are no point, its point has the right order anyway, or a scalar is not reduced; and
for a ring of one key an accepted image is the key's own, as a point and as bytes,
under the same conditions. -/
theorem image_in_subgroup_iff (prefixHash : Hash) (image : KeyImage) :
    (∀ (pubs : List PublicKey) (sigs : List Signature), sigs.length = pubs.length →
      (∀ pub ∈ pubs, (C.frombytes pub).isSome = true) →
      ((∀ fastHash, C.checkRingSignature ⟨fromfe, fastHash⟩ prefixHash image pubs sigs = some true →
          C.InSubgroup image) ↔
        C.frombytes image = none ∨ C.InSubgroup image ∨ ∃ sig ∈ sigs, ¬ C.Reduced sig)) ∧
    ∀ (pub : PublicKey) (sec : Nat) (sig : Signature), C.frombytes pub = some (sec • C.base) →
      ((∀ fastHash, C.checkRingSignature ⟨fromfe, fastHash⟩ prefixHash image [pub] [sig] = some true →
          C.frombytes image = some (sec • hashToEc fromfe pub)) ↔
        C.frombytes image = none ∨ C.frombytes image = some (sec • hashToEc fromfe pub) ∨
          ¬ C.Reduced sig) ∧
      ((∀ fastHash, C.checkRingSignature ⟨fromfe, fastHash⟩ prefixHash image [pub] [sig] = some true →
          image = C.generateKeyImage fromfe pub sec) ↔
        C.frombytes image = none ∨ image = C.generateKeyImage fromfe pub sec ∨
          ¬ C.Reduced sig) := by
  refine ⟨fun pubs sigs hlen hkeys => C.accepted_only_iff fromfe prefixHash image hlen hkeys _, ?_⟩
  intro pub sec sig hpub
  have hlen : [sig].length = [pub].length := rfl
  have hkeys : ∀ key ∈ [pub], (C.frombytes key).isSome = true := by
    intro key hkey
    rw [List.mem_singleton.1 hkey, hpub]
    rfl
  have hone : (∃ s ∈ [sig], ¬ C.Reduced s) ↔ ¬ C.Reduced sig := by
    rw [List.exists_mem_cons_iff]
    exact or_iff_left fun ⟨s, hs, _⟩ => List.not_mem_nil hs
  have honly := fun P => C.accepted_only_iff fromfe prefixHash image hlen hkeys P
  rw [hone] at honly
  exact ⟨honly _, honly _⟩

/-- An environment that checks ring signatures on this curve. -/
def ChecksOn (H : Hashes Γ) (env : Env) : Prop :=
  ∀ prefixHash image pubs sigs, env.checkRingSignature prefixHash image pubs sigs =
    (C.checkRingSignature H prefixHash image pubs sigs).getD false

/-- `check_tx_input` cannot tell the two images apart either, so an output spent
with one of them can be spent again with the other. -/
theorem checkTxInput_add {H : Hashes Γ} {env : Env} (hc : C.ChecksOn H env) {p t : Γ}
    {image image' : KeyImage} (hp : C.frombytes image = some p)
    (hp' : C.frombytes image' = some (p + t)) {sig : List Signature}
    (ht : ∀ s ∈ sig, sigC s • t = 0) (now : Nat) (s : Storage) (amount : UInt64)
    (keyOffsets : List UInt64) (prefixHash : Hash) (maxUsed : Nat) :
    s.checkTxInput env now amount keyOffsets image' prefixHash sig maxUsed =
      s.checkTxInput env now amount keyOffsets image prefixHash sig maxUsed := by
  unfold Storage.checkTxInput
  split
  · rfl
  · rfl
  · simp only
    rw [hc, hc, C.checkRingSignature_add H hp hp' ht]

end Curve

/-! ## A curve to try things on -/

namespace SmallCurve

/-- Order `8 * 11`, with the points written as they are. -/
def curve : Curve (ZMod 88) where
  l := 11
  prime := by decide
  l_lt := by decide
  card := by rw [Nat.card_zmod]
  base := 8
  base_order := by decide
  frombytes b := if b.toNat < 88 then some (b.toNat : ZMod 88) else none
  tobytes p := BitVec.ofNat 256 p.val
  frombytes_tobytes p := by
    have hlt : p.val < 88 := ZMod.val_lt p
    have hval : (BitVec.ofNat 256 p.val).toNat = p.val := by
      rw [BitVec.toNat_ofNat]
      omega
    rw [hval, if_pos hlt, ZMod.natCast_zmod_val]

def hashes : Hashes (ZMod 88) where
  fromfe key := (key.toNat : ZMod 88) + 1
  fastHash prefixHash buf := buf.foldl (fun h ab => h + ab.1 + ab.2) prefixHash

/-- The key of the secret 3, and a signature by it with the challenge 8. -/
def pub : PublicKey := 24
def sig : Signature := 8 + 3 * 2 ^ 256
def prefixHash : Hash := 2

/-- The key's image, and the image shifted by a point of order 8. -/
def image : KeyImage := 72
def shifted : KeyImage := 83

end SmallCurve

/-- One key and one signature, accepted with the key's own image and with
another one, outside the subgroup. -/
theorem shifted_image_accepted :
    SmallCurve.curve.frombytes SmallCurve.pub = some (3 • SmallCurve.curve.base) ∧
    SmallCurve.image = SmallCurve.curve.generateKeyImage SmallCurve.hashes.fromfe SmallCurve.pub 3 ∧
    SmallCurve.curve.checkRingSignature SmallCurve.hashes SmallCurve.prefixHash SmallCurve.image
      [SmallCurve.pub] [SmallCurve.sig] = some true ∧
    SmallCurve.curve.checkRingSignature SmallCurve.hashes SmallCurve.prefixHash SmallCurve.shifted
      [SmallCurve.pub] [SmallCurve.sig] = some true ∧
    SmallCurve.image ≠ SmallCurve.shifted ∧
    ¬ SmallCurve.curve.InSubgroup SmallCurve.shifted := by
  have heval : SmallCurve.curve.frombytes SmallCurve.pub = some (3 • SmallCurve.curve.base) ∧
      SmallCurve.image =
        SmallCurve.curve.generateKeyImage SmallCurve.hashes.fromfe SmallCurve.pub 3 ∧
      SmallCurve.curve.checkRingSignature SmallCurve.hashes SmallCurve.prefixHash SmallCurve.image
        [SmallCurve.pub] [SmallCurve.sig] = some true ∧
      SmallCurve.curve.checkRingSignature SmallCurve.hashes SmallCurve.prefixHash SmallCurve.shifted
        [SmallCurve.pub] [SmallCurve.sig] = some true ∧
      SmallCurve.image ≠ SmallCurve.shifted := by decide +kernel
  obtain ⟨hpub, himage, hown, hshifted, hne⟩ := heval
  refine ⟨hpub, himage, hown, hshifted, hne, fun ⟨p, hp, horder⟩ => ?_⟩
  have hpoint : SmallCurve.curve.frombytes SmallCurve.shifted = some 83 := by decide +kernel
  cases hpoint.symm.trans hp
  have hbad : SmallCurve.curve.l • (83 : ZMod 88) ≠ 0 := by decide +kernel
  exact hbad horder

/-- With the key's own image the check and the subgroup agree, and under every hash
the image accepted for the one key is its own. -/
theorem own_image_in_subgroup :
    SmallCurve.curve.InSubgroup SmallCurve.image ∧
    ((∀ fastHash, SmallCurve.curve.checkRingSignature ⟨SmallCurve.hashes.fromfe, fastHash⟩
        SmallCurve.prefixHash SmallCurve.image [SmallCurve.pub] [SmallCurve.sig] = some true →
        SmallCurve.curve.InSubgroup SmallCurve.image) ↔
      SmallCurve.curve.frombytes SmallCurve.image = none ∨
        SmallCurve.curve.InSubgroup SmallCurve.image ∨
        ∃ sig ∈ [SmallCurve.sig], ¬ SmallCurve.curve.Reduced sig) ∧
    ∀ fastHash, SmallCurve.curve.checkRingSignature ⟨SmallCurve.hashes.fromfe, fastHash⟩
      SmallCurve.prefixHash SmallCurve.image [SmallCurve.pub] [SmallCurve.sig] = some true →
      SmallCurve.image =
        SmallCurve.curve.generateKeyImage SmallCurve.hashes.fromfe SmallCurve.pub 3 := by
  have himage : SmallCurve.image =
      SmallCurve.curve.generateKeyImage SmallCurve.hashes.fromfe SmallCurve.pub 3 := by
    decide +kernel
  have hkey : SmallCurve.curve.frombytes SmallCurve.pub = some (3 • SmallCurve.curve.base) := by
    decide +kernel
  have hlen : [SmallCurve.sig].length = [SmallCurve.pub].length := by
    rw [List.length_singleton, List.length_singleton]
  obtain ⟨hring, hone⟩ := SmallCurve.curve.image_in_subgroup_iff SmallCurve.hashes.fromfe
    SmallCurve.prefixHash SmallCurve.image
  refine ⟨?_, hring [SmallCurve.pub] [SmallCurve.sig] hlen fun pub hpub => ?_,
    (hone SmallCurve.pub 3 SmallCurve.sig hkey).2.2 (.inr (.inl himage))⟩
  · rw [himage]
    exact SmallCurve.curve.inSubgroup_generateKeyImage SmallCurve.hashes.fromfe SmallCurve.pub 3
  · rw [List.mem_singleton.1 hpub, hkey]
    rfl

end DarknetSpace
