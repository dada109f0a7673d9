import DarknetSpace.Core.Fence

/-!
# The checkpoint-zone flag

`m_is_in_checkpoint_zone` decides whether ring signatures are looked at. `init`
sets it for the height of the next block. The two block handlers set it for the
height of the block they are handling, and leave it so: after the block at the
last checkpoint the flag says "in the zone" while the next block is not. An
alternative block sets it for its own height as well, before its coinbase is
compared with that height, so a block that lies about its height gets past the
checkpoint test and sets the flag for a height the chain has long passed.

`FlagInZone` is the invariant, and `SparesZoneEnd` the condition on a new block: it does
not put the last checkpoint on top, nor is it an alternative block that claims such a
height. Main result: `signatures_skipped_only_in_zone`, for every run of top-level calls
from a loaded chain.
-/

namespace DarknetSpace

open StateExn

/-! ## The zone -/

theorem isInCheckpointZone_iff {points : Checkpoints} {height : Nat} :
    points.isInCheckpointZone height = true ↔ ∃ p ∈ points.keys, height ≤ p := by
  unfold Checkpoints.isInCheckpointZone
  rw [List.any_eq_true]
  simp

theorem isInCheckpointZone_of_le {points : Checkpoints} {h h' : Nat} (hle : h ≤ h')
    (hz : points.isInCheckpointZone h' = true) : points.isInCheckpointZone h = true := by
  obtain ⟨p, hp, hp'⟩ := isInCheckpointZone_iff.1 hz
  exact isInCheckpointZone_iff.2 ⟨p, hp, by omega⟩

/-- The last height of the zone. -/
def AtZoneEnd (points : Checkpoints) (height : Nat) : Prop :=
  points.isInCheckpointZone height = true ∧ points.isInCheckpointZone (height + 1) = false

instance (points : Checkpoints) (height : Nat) : Decidable (AtZoneEnd points height) :=
  inferInstanceAs (Decidable (_ ∧ _))

/-- Signatures are skipped only if the next block is in the zone. -/
def FlagInZone (s : Storage) : Prop :=
  s.mIsInCheckpointZone = true → s.mCheckpoints.isInCheckpointZone s.mBlocks.length = true

/-! ## Signatures -/

/-- Every input of the transaction names outputs of the chain and comes with a
ring signature of theirs that verifies. -/
def RingSignaturesVerified (env : Env) (now : Nat) (s : Storage) (tx : Transaction) : Prop :=
  ∀ (i : Nat) input, tx.vin[i]? = some input → ∃ amount offs kImage ring sig,
    input = .toKey amount offs kImage ∧
    Storage.scanOutputkeysForIndexes env now s amount offs = .ok (some ring) ∧
    tx.signatures[i]? = some sig ∧ sig.length = ring.length ∧
    env.checkRingSignature (getTransactionHash env tx) kImage (ring.map (·.1)) sig = true

/-- Outside the zone, inputs that pass have had their ring signatures checked. -/
theorem checkInputs_verified {env : Env} {now : Nat} {s : Storage} {hash : Hash}
    (hflag : s.mIsInCheckpointZone = false) {vin : List Txin} {sigs : List (List Signature)}
    {used m : Nat} (h : Storage.checkInputs env now s hash vin sigs used = .ok (some m)) (i : Nat)
    {input : Txin} (hi : vin[i]? = some input) : ∃ amount offs kImage ring sig,
      input = .toKey amount offs kImage ∧
      Storage.scanOutputkeysForIndexes env now s amount offs = .ok (some ring) ∧
      sigs[i]? = some sig ∧ sig.length = ring.length ∧
      env.checkRingSignature hash kImage (ring.map (·.1)) sig = true := by
  induction vin generalizing sigs used i with
  | nil => cases hi
  | cons j rest ih =>
    cases j with
    | toKey amount offs kImage =>
      unfold Storage.checkInputs at h
      split at h
      · cases h
      · split at h
        · cases h
        · split at h
          · cases h
          · next hsigs =>
            cases sigs with
            | nil => simp [hflag] at hsigs
            | cons sig sigs =>
              cases hin : Storage.checkTxInput env now s amount offs kImage hash sig used with
              | error e =>
                rw [List.headD_cons, hin] at h
                cases h
              | ok r =>
                rw [List.headD_cons, hin] at h
                cases r with
                | none => cases h
                | some used' =>
                  cases i with
                  | succ i => exact ih h i hi
                  | zero =>
                    cases hi
                    -- what let the first input through
                    unfold Storage.checkTxInput at hin
                    cases hscan : Storage.scanOutputkeysForIndexes env now s amount offs with
                    | error e => rw [hscan] at hin; cases hin
                    | ok ring =>
                      rw [hscan] at hin
                      cases ring with
                      | none => cases hin
                      | some ring =>
                        simp only [hflag, Bool.false_eq_true, if_false] at hin
                        split at hin
                        · cases hin
                        · next hlen =>
                          split at hin
                          · next hver =>
                            exact ⟨amount, offs, kImage, ring, sig, rfl, hscan, rfl,
                              not_not.1 hlen, hver⟩
                          · cases hin
    | gen g => cases h
    | toScript _ _ _ => cases h
    | toScripthash _ _ _ _ => cases h

/-- `add_tx` of a transaction that does not come with a block: what it means
that the pool took it. -/
theorem addTx_verified {env : Env} {now : Nat} {s : Storage} {p p' : TxMemoryPool}
    {tx : Transaction} {aliasName : Blob} {v : TxMemoryPool.Verdict}
    (hflag : s.mIsInCheckpointZone = false)
    (h : p.addTx env now s tx false aliasName = .ok (v, p'))
    (hv : v.1 = true ∨ v.2.mAddedToPool = true) : RingSignaturesVerified env now s tx := by
  have refused : ¬ (TxMemoryPool.refused.1 = true ∨ TxMemoryPool.refused.2.mAddedToPool = true) := by
    decide
  unfold TxMemoryPool.addTx at h
  simp only at h
  split at h
  · cases h
    exact absurd hv refused
  · split at h
    · cases h
      exact absurd hv refused
    · cases hc : s.checkTxInputsWithId env now tx with
      | error e =>
        rw [hc] at h
        cases h
      | ok r =>
        rw [hc] at h
        cases r with
        | none =>
          cases h
          exact absurd hv refused
        | some r =>
          unfold Storage.checkTxInputsWithId at hc
          cases hin : s.checkTxInputs env now tx with
          | error e => rw [hin] at hc; cases hc
          | ok u =>
            cases u with
            | none => rw [hin] at hc; cases hc
            | some u => exact fun i input hi => checkInputs_verified hflag hin i hi

/-! ## Runs of top-level calls -/

/-- What `init` has loaded or made before its last writes: a sound chain, and no
alternative blocks, which are not stored. -/
structure Loaded (env : Env) (n : Node) : Prop where
  sound : Sound env (fun _ => True) n
  line : MainLine env n.chain.mBlocks
  nonempty : n.chain.mBlocks ≠ []
  alts : n.chain.mAlternativeChains = ∅

/-- `update_next_comulative_size_limit(); m_is_in_checkpoint_zone = ...` at the end
of `init`. -/
def finishInit (n : Node) : Node :=
  { n with chain :=
    (n.chain.updateNextComulativeSizeLimit).setCheckpointZone n.chain.getCurrentBlockchainHeight }

/-- The end of `init` sets the limit and the flag. -/
theorem finishInit_eq (n : Node) : ∃ limit, finishInit n = { n with chain :=
    { n.chain with
      mCurrentBlockCumulSzLimit := limit
      mIsInCheckpointZone := n.chain.mCheckpoints.isInCheckpointZone n.chain.mBlocks.length } } := by
  unfold finishInit Storage.setCheckpointZone Storage.updateNextComulativeSizeLimit
  exact ⟨_, rfl⟩

/-- The states between two top-level calls, every new block meeting `C`. -/
inductive TopRun (env : Env) (C : Nat → Node → Block → Prop) : Node → Prop where
  | init {n : Node} (loaded : Loaded env n) : TopRun env C (finishInit n)
  | incomingTx {n n' : Node} {now : Nat} {blob : Blob} {kept : Bool} (h : TopRun env C n)
      (ends : EndsIn (handleIncomingTx env now blob kept n) n') : TopRun env C n'
  | newBlock {n n' : Node} {now depth : Nat} {bl : Block} (h : TopRun env C n) (cond : C now n bl)
      (ends : EndsIn (addNewBlock env now depth bl n) n') : TopRun env C n'
  | pop {n n' : Node} {now : Nat} (h : TopRun env C n)
      (ends : EndsIn (popBlockFromBlockchain env now n) n') : TopRun env C n'

/-- The node has a genesis block, and no alternative block is at its height. -/
abbrev Rooted (env : Env) (n : Node) : Prop := Fenced env 1 [] (fun _ => True) n

theorem rooted_invariant (env : Env) :
    FenceInvariant env 1 [] (fun _ => True) (fun _ => True) :=
  ⟨fun _ _ => List.not_mem_nil, fun _ _ _ _ _ _ => trivial, fun _ _ _ _ _ => trivial,
    fun _ _ _ _ => trivial, fun _ _ _ _ => trivial⟩

/-- It stays when a block is popped, too. -/
theorem Rooted.pop {env : Env} {n : Node} (h : Rooted env n) (now : Nat) :
    Rooted env (stateOf (popBlockFromBlockchain env now n)) := by
  refine Fenced.pop h now fun m hs => ?_
  -- the genesis block is not popped
  obtain ⟨e, he⟩ := hs.blocks
  have hlen := congrArg List.length he
  have hpos := List.length_pos_iff.2 hs.nonempty
  rw [List.length_append, List.length_singleton, length_forgetFlags, length_forgetFlags] at hlen
  omega

theorem keeps_addNewBlock_of {P : Node → Prop} {env : Env} {now depth : Nat} {bl : Block}
    (halt : Keeps P (handleAlternativeBlock env now depth bl (getBlockHash env bl)))
    (hmain : Keeps P (handleBlockToMainChain env now bl (getBlockHash env bl))) :
    Keeps P (addNewBlock env now depth bl) :=
  Keeps.bind Keeps.get fun _ => Keeps.ite (Keeps.pure _) (Keeps.ite halt hmain)

/-- Along a run the chain is rooted and in line. -/
theorem TopRun.rooted {env : Env} {C : Nat → Node → Block → Prop} {n : Node} (h : TopRun env C n) :
    Rooted env n ∧ MainLine env n.chain.mBlocks := by
  induction h with
  | @init n loaded =>
    obtain ⟨limit, heq⟩ := finishInit_eq n
    rw [heq]
    refine ⟨⟨⟨loaded.sound.index, loaded.sound.outputs, loaded.sound.txs, loaded.sound.pool⟩,
      List.length_pos_iff.2 loaded.nonempty, fun i id _ hi => absurd hi (by omega),
      fun _ _ _ _ => trivial, fun id e he => ?_⟩, loaded.line⟩
    simp only [loaded.alts, Std.ExtTreeMap.getElem?_empty] at he
    cases he
  | incomingTx _ ends ih =>
    obtain ⟨hchain, hsound⟩ := ends.poolOnly ih.1.sound
    refine ⟨⟨hsound, ?_, ?_, ?_, ?_⟩, ?_⟩
    all_goals rw [hchain]
    · exact ih.1.floor
    · exact ih.1.low
    · exact ih.1.main
    · exact ih.1.alts
    · exact ih.2
  | @newBlock n n' now depth bl _ _ ends ih =>
    have hinv := rooted_invariant env
    have htrue : (fun _ : Block => True) bl := trivial
    have hkeep := keeps_addNewBlock_of (hinv.keeps_handleAlternativeBlock now depth htrue
      (getBlockHash env bl)) (hinv.keeps_push now htrue) n ⟨ih.1, trivial⟩
    have hline := (mainLine_invariant env).chainInvariant.addNewBlock now depth bl
    rw [← ends.eq_stateOf] at hkeep
    refine ⟨hkeep.1, ?_⟩
    rcases ends with ⟨a, hr⟩ | hr
    · exact (hline.ok ⟨ih.1.sound, ih.2⟩ hr).2
    · exact (hline.error ⟨ih.1.sound, ih.2⟩ hr rfl).2
  | @pop n n' now _ ends ih =>
    have hline := (mainLine_invariant env).chainInvariant.pop now
    refine ⟨ends.eq_stateOf ▸ ih.1.pop now, ?_⟩
    rcases ends with ⟨a, hr⟩ | hr
    · exact (hline.ok ⟨ih.1.sound, ih.2⟩ hr).2
    · exact (hline.error ⟨ih.1.sound, ih.2⟩ hr rfl).2

/-! ## Which blocks spare the end of the zone -/

/-- The height the coinbase of a block claims. -/
def claimedHeight (b : Block) : Nat := (getBlockHeight b).toNat

/-- A block whose form is right claims the height it is for. -/
theorem claimedHeight_of_form {s : Storage} {bl : Block} {id : Hash} {height : Nat}
    (h : checkBlockForm s bl id height = true) : claimedHeight bl = height := by
  unfold checkBlockForm at h
  have hpre := (Bool.and_eq_true_iff.1 h).2
  unfold prevalidateMinerTransaction at hpre
  split at hpre
  · next g hv =>
    have hheight : getBlockHeight bl = g := by
      unfold getBlockHeight
      rw [hv]
    simp only [Bool.and_eq_true, decide_eq_true_eq] at hpre
    unfold claimedHeight
    rw [hheight]
    exact hpre.1.1
  · cases hpre

/-- The block hangs on a main-chain block so that its own height is in the
zone. -/
def HangsInZone (s : Storage) (b : Block) : Prop :=
  ∃ i : Nat, s.mBlocksIndex[i]? = some b.prevId ∧ s.mCheckpoints.isInCheckpointZone (i + 1) = true

/-- A block that does not take the chain over the end of the zone. -/
inductive SparesZoneEnd (env : Env) (now : Nat) (n : Node) (bl : Block) : Prop where
  /-- It is known. -/
  | known (h : n.chain.haveBlock (getBlockHash env bl) = true)
  /-- It is next on the main chain, and not the one at the last checkpoint, or is
  refused for its header or its form. -/
  | onTop (top : bl.prevId = n.chain.getTopBlockId env)
      (h : ¬ AtZoneEnd n.chain.mCheckpoints n.chain.mBlocks.length ∨
        checkBlockHeader env now n.chain bl ≠ none ∨
        checkBlockForm (n.chain.setCheckpointZone n.chain.mBlocks.length) bl (getBlockHash env bl)
          n.chain.mBlocks.length = false)
  /-- It is refused for the height its coinbase claims. -/
  | passed (side : bl.prevId ≠ n.chain.getTopBlockId env)
      (h : n.chain.mCheckpoints.isHeightPassedZone (claimedHeight bl)
        (n.chain.getCurrentBlockchainHeight - 1) = true)
  /-- It starts no reorganisation, and its height is in the zone only if the next
  block's is. -/
  | beside (side : bl.prevId ≠ n.chain.getTopBlockId env)
      (h : ∀ c, altCandidate env n.chain bl = .ok (.inr c) →
        (n.chain.mCheckpoints.isInCheckpointZone c.height = true →
          n.chain.mCheckpoints.isInCheckpointZone n.chain.mBlocks.length = true) ∧
        ∀ prev, altPrevDifficulty n.chain bl c.altChain = .ok prev →
          (altBlockEntry bl c prev).cumulativeDifficulty ≤ cumulativeDifficulty n.chain.mBlocks)
  /-- The chain is inside the zone, and no block the node knows is at its end. -/
  | inside (side : bl.prevId ≠ n.chain.getTopBlockId env)
      (zone : n.chain.mCheckpoints.isInCheckpointZone n.chain.mBlocks.length = true)
      (new : ¬ AtZoneEnd n.chain.mCheckpoints (claimedHeight bl))
      (main : ∀ e ∈ n.chain.mBlocks, ¬ AtZoneEnd n.chain.mCheckpoints (claimedHeight e.bl))
      (alts : ∀ (id : Hash) e, n.chain.mAlternativeChains[id]? = some e →
        ¬ AtZoneEnd n.chain.mCheckpoints (claimedHeight e.bl))
  /-- The chain is past the zone, and no alternative block hangs in it. -/
  | past (side : bl.prevId ≠ n.chain.getTopBlockId env)
      (zone : n.chain.mCheckpoints.isInCheckpointZone n.chain.mBlocks.length = false)
      (new : ¬ HangsInZone n.chain bl)
      (alts : ∀ (id : Hash) e, n.chain.mAlternativeChains[id]? = some e →
        n.chain.mCheckpoints.isInCheckpointZone e.height = false ∧ ¬ HangsInZone n.chain e.bl)

/-! ## One step -/

section

variable {env : Env} {now : Nat} {bl : Block} {n : Node}

/-- How a push changes the length of the chain. -/
theorem length_push (hn : Sound env (fun _ => True) n) (now : Nat) (bl : Block) :
    (stateOf (handleBlockToMainChain env now bl (getBlockHash env bl) n)).chain.mBlocks.length =
        n.chain.mBlocks.length ∨
      checkBlockForm (n.chain.setCheckpointZone n.chain.mBlocks.length) bl (getBlockHash env bl)
          n.chain.mBlocks.length = true ∧
        (stateOf (handleBlockToMainChain env now bl (getBlockHash env bl) n)).chain.mBlocks.length =
          n.chain.mBlocks.length + 1 := by
  have ho := handleBlockToMainChain_addedOrQuiet hn now bl (getBlockHash env bl)
  cases hr : handleBlockToMainChain env now bl (getBlockHash env bl) n with
  | error e m =>
    rw [hr] at ho
    exact .inl (length_eq_of_forgetFlags ho.chain.blocks)
  | ok v m =>
    rw [hr] at ho
    rcases ho with rfl | hq
    · obtain ⟨c⟩ := handleBlockToMainChain_added hr
      have hlen := length_eq_of_forgetFlags (c.blocks_eq hn)
      rw [List.length_append, List.length_singleton] at hlen
      exact .inr ⟨c.form, hlen⟩
    · exact .inl (length_eq_of_forgetFlags hq.chain.blocks)

/-- A pop adds no block. -/
theorem length_pop (hn : Sound env (fun _ => True) n) (now : Nat) :
    (stateOf (popBlockFromBlockchain env now n)).chain.mBlocks.length ≤ n.chain.mBlocks.length := by
  have ho := popBlock_shortenedOrQuiet hn now
  cases hr : popBlockFromBlockchain env now n with
  | error e m =>
    rw [hr] at ho
    exact (length_eq_of_forgetFlags ho.chain.blocks).le
  | ok r m =>
    rw [hr] at ho
    cases r with
    | false => exact (length_eq_of_forgetFlags ho.chain.blocks).le
    | true =>
      obtain ⟨e, he⟩ := ho.blocks
      have hlen := congrArg List.length he
      rw [List.length_append, List.length_singleton, length_forgetFlags, length_forgetFlags] at hlen
      show m.chain.mBlocks.length ≤ _
      omega

/-- A push of a block that is not at the end of the zone. -/
theorem FlagInZone.push (h : FlagInZone n.chain) (hn : Sound env (fun _ => True) n)
    (hend : ¬ AtZoneEnd n.chain.mCheckpoints n.chain.mBlocks.length) :
    FlagInZone (stateOf (handleBlockToMainChain env now bl (getBlockHash env bl) n)).chain := by
  intro hflag
  have hzone : n.chain.mCheckpoints.isInCheckpointZone n.chain.mBlocks.length = true := by
    rcases handleBlockToMainChain_sameBeside env now bl (getBlockHash env bl) hn.sync with hs | hs
    · exact h (hs.zone.symm.trans hflag)
    · exact hs.zone.symm.trans hflag
  have hcp : (stateOf (handleBlockToMainChain env now bl (getBlockHash env bl) n)).chain.mCheckpoints =
      n.chain.mCheckpoints := by
    rcases handleBlockToMainChain_sameBeside env now bl (getBlockHash env bl) hn.sync with hs | hs
    · exact hs.checkpoints
    · exact hs.checkpoints
  rw [hcp]
  rcases length_push hn now bl with hlen | ⟨_, hlen⟩
  · rw [hlen]
    exact hzone
  · rw [hlen]
    by_contra hnext
    exact hend ⟨hzone, Bool.eq_false_iff.2 hnext⟩

/-- A block refused for its header or its form. -/
theorem FlagInZone.refused (h : FlagInZone n.chain)
    (href : checkBlockHeader env now n.chain bl ≠ none ∨
      checkBlockForm (n.chain.setCheckpointZone n.chain.mBlocks.length) bl (getBlockHash env bl)
        n.chain.mBlocks.length = false) :
    FlagInZone (stateOf (handleBlockToMainChain env now bl (getBlockHash env bl) n)).chain := by
  unfold handleBlockToMainChain
  rw [bind_of_ok (get_apply n)]
  cases hhead : checkBlockHeader env now n.chain bl with
  | some v => exact h
  | none =>
    have hform := href.resolve_left (fun hne => hne hhead)
    simp only
    rw [bind_of_ok (onChain_modify _ n), bind_of_ok (get_apply _)]
    split
    · next hform' =>
      exact absurd (hform'.symm.trans hform) (by simp)
    · exact fun hflag => hflag

/-- A block that is only kept beside the main chain. -/
theorem FlagInZone.kept {switch : AltChain → NodeM Bool} {id : Hash} (h : FlagInZone n.chain)
    (hcand : ∀ c, altCandidate env n.chain bl = .ok (.inr c) →
      (n.chain.mCheckpoints.isInCheckpointZone c.height = true →
        n.chain.mCheckpoints.isInCheckpointZone n.chain.mBlocks.length = true) ∧
      ∀ prev, altPrevDifficulty n.chain bl c.altChain = .ok prev →
        (altBlockEntry bl c prev).cumulativeDifficulty ≤ cumulativeDifficulty n.chain.mBlocks) :
    FlagInZone (stateOf (alternativeBlock env switch bl id n)).chain := by
  have body : FlagInZone (stateOf (alternativeBlockBody env switch bl id n)).chain := by
    unfold alternativeBlockBody
    cases hc : altCandidate env n.chain bl with
    | error e =>
      have hread : readChain (fun s => altCandidate env s bl) n = .error e n := readChain_of_error hc
      rw [bind_of_error hread]
      exact h
    | ok v =>
      have hread : readChain (fun s => altCandidate env s bl) n = .ok v n := readChain_of_ok hc
      rw [bind_of_ok hread]
      cases v with
      | inl v => exact h
      | inr c =>
        obtain ⟨hzone, hweight⟩ := hcand c hc
        show FlagInZone (stateOf (keepAlternativeBlock switch bl id c n)).chain
        unfold keepAlternativeBlock
        rw [bind_of_ok (onChain_modify _ n), bind_of_ok (get_apply _)]
        split
        -- the flag is that of the candidate's height, which is in the zone only if the next height
        -- is
        · exact hzone
        · cases hp : altPrevDifficulty n.chain bl c.altChain with
          | error e =>
            have hread : readChain (fun s => altPrevDifficulty s bl c.altChain)
              { n with chain := n.chain.setCheckpointZone c.height } = .error e _ :=
              readChain_of_error hp
            rw [bind_of_error hread]
            exact hzone
          | ok prev =>
            have hread : readChain (fun s => altPrevDifficulty s bl c.altChain)
              { n with chain := n.chain.setCheckpointZone c.height } = .ok prev _ :=
              readChain_of_ok hp
            rw [bind_of_ok hread]
            split
            · exact hzone
            · rw [bind_of_ok (onChain_modify _ _)]
              split
              -- it does not overtake, so no switch is tried
              · next hlt => exact absurd hlt (Nat.not_lt.2 (hweight prev hp))
              · exact hzone
  unfold alternativeBlock
  rw [bind_of_ok (get_apply n)]
  split
  · exact h
  · unfold catchEntry
    cases hr : alternativeBlockBody env switch bl id n with
    | ok v m =>
      rw [hr] at body
      exact body
    | error e m =>
      rw [hr] at body
      cases e with
      | indexOverflow => exact body
      | undefinedBehaviour => exact body
      | endless => exact body

/-- Inside the zone, with no block known at its end: pushes stop short of it. -/
theorem insideZone_invariant (env : Env) (cp : Checkpoints) :
    FenceInvariant env 1 [] (fun b => ¬ AtZoneEnd cp (claimedHeight b)) fun n =>
      n.chain.mCheckpoints = cp ∧ cp.isInCheckpointZone n.chain.mBlocks.length = true := by
  refine ⟨fun _ _ => List.not_mem_nil, fun now bl n hK hf hn => ⟨?_, ?_⟩,
    fun now n _ hf hn => ⟨?_, ?_⟩, fun n _ _ hn => hn, fun n _ _ hn => hn⟩
  · rcases handleBlockToMainChain_sameBeside env now bl (getBlockHash env bl) hf.sound.sync with hs | hs
    · exact hs.checkpoints.trans hn.1
    · exact hs.checkpoints.trans hn.1
  · rcases length_push hf.sound now bl with hlen | ⟨hform, hlen⟩
    · rw [hlen]
      exact hn.2
    · rw [hlen]
      rw [claimedHeight_of_form hform] at hK
      by_contra hnext
      exact hK ⟨hn.2, Bool.eq_false_iff.2 hnext⟩
  · have := congrArg Storage.mCheckpoints (keeps_side_popBlock env now n.chain.side n rfl)
    exact Eq.trans this hn.1
  · exact isInCheckpointZone_of_le (length_pop hf.sound now) hn.2

/-- Past the zone, above a height that is not in it: nothing sets the flag. -/
theorem pastZone_invariant (env : Env) (cp : Checkpoints) {f : Nat} (low : List Hash)
    (hf : cp.isInCheckpointZone f = false) :
    FenceInvariant env f low (fun b => b.prevId ∉ low) fun n =>
      n.chain.mCheckpoints = cp ∧ n.chain.mIsInCheckpointZone = false := by
  have hz : ∀ {h : Nat}, f ≤ h → cp.isInCheckpointZone h = false := by
    intro h hle
    rw [Bool.eq_false_iff]
    intro hzone
    rw [isInCheckpointZone_of_le hle hzone] at hf
    cases hf
  refine ⟨fun _ h => h, fun now bl n _ hfence hn => ?_, fun now n _ _ hn => ⟨?_, ?_⟩,
    fun n h hle hn => ⟨hn.1, ?_⟩, fun n _ _ hn => hn⟩
  · rcases handleBlockToMainChain_sameBeside env now bl (getBlockHash env bl) hfence.sound.sync with
      hs | hs
    · exact ⟨hs.checkpoints.trans hn.1, hs.zone.trans hn.2⟩
    · refine ⟨hs.checkpoints.trans hn.1, hs.zone.trans ?_⟩
      show n.chain.mCheckpoints.isInCheckpointZone n.chain.mBlocks.length = false
      rw [hn.1]
      exact hz hfence.floor
  · have := congrArg Storage.mCheckpoints (keeps_side_popBlock env now n.chain.side n rfl)
    exact Eq.trans this hn.1
  · have := congrArg Storage.mIsInCheckpointZone (keeps_side_popBlock env now n.chain.side n rfl)
    exact Eq.trans this hn.2
  · show n.chain.mCheckpoints.isInCheckpointZone h = false
    rw [hn.1]
    exact hz hle

/-- The first height past the zone is a fence, when no alternative block hangs
below it. -/
theorem fenced_of_past (hroot : Rooted env n) (hline : MainLine env n.chain.mBlocks)
    (hzone : n.chain.mCheckpoints.isInCheckpointZone n.chain.mBlocks.length = false)
    (halts : ∀ (id : Hash) e, n.chain.mAlternativeChains[id]? = some e →
      n.chain.mCheckpoints.isInCheckpointZone e.height = false ∧ ¬ HangsInZone n.chain e.bl) :
    ∃ f, n.chain.mCheckpoints.isInCheckpointZone f = false ∧
      (∀ b, ¬ HangsInZone n.chain b → b.prevId ∉ n.chain.mBlocksIndex.take (f - 1)) ∧
      Fenced env f (n.chain.mBlocksIndex.take (f - 1))
        (fun b => b.prevId ∉ n.chain.mBlocksIndex.take (f - 1)) n := by
  -- the first height from 1 on that is not in the zone
  have hex : ∃ f, 1 ≤ f ∧ n.chain.mCheckpoints.isInCheckpointZone f = false :=
    ⟨n.chain.mBlocks.length, hroot.floor, hzone⟩
  obtain ⟨f, ⟨hpos, hf⟩, hmin⟩ : ∃ f, (1 ≤ f ∧ n.chain.mCheckpoints.isInCheckpointZone f = false) ∧
      ∀ g, 1 ≤ g → n.chain.mCheckpoints.isInCheckpointZone g = false → f ≤ g :=
    ⟨Nat.find hex, Nat.find_spec hex, fun g hg hgz => Nat.find_min' hex ⟨hg, hgz⟩⟩
  have hin : ∀ g, 1 ≤ g → g < f → n.chain.mCheckpoints.isInCheckpointZone g = true := by
    intro g hg hlt
    by_contra hgz
    have := hmin g hg (Bool.eq_false_iff.2 hgz)
    omega
  have hlow : ∀ b, ¬ HangsInZone n.chain b → b.prevId ∉ n.chain.mBlocksIndex.take (f - 1) := by
    intro b hb hmem
    obtain ⟨i, hi⟩ := List.getElem?_of_mem hmem
    have hlt := (List.getElem?_eq_some_iff.1 hi).1
    rw [List.length_take] at hlt
    rw [List.getElem?_take, if_pos (by omega)] at hi
    exact hb ⟨i, hi, hin (i + 1) (by omega) (by omega)⟩
  refine ⟨f, hf, hlow, hroot.sound, hmin _ hroot.floor hzone, fun i id hid hi => ?_,
    fun i e he hi => ?_, fun id e he => ?_⟩
  · refine List.mem_of_getElem? (i := i) ?_
    rw [List.getElem?_take, if_pos (by omega)]
    exact hid
  · -- a main-chain block above the fence hangs on the one below it
    refine hlow e.bl fun ⟨j, hj, hjz⟩ => ?_
    have hi' := (List.getElem?_eq_some_iff.1 he).1
    obtain ⟨e₀, he₀⟩ : ∃ e₀, n.chain.mBlocks[i - 1]? = some e₀ :=
      ⟨_, List.getElem?_eq_getElem (by omega)⟩
    have hprev := hline.2 (i - 1) e₀ e he₀ (by rw [Nat.sub_add_cancel (by omega)]; exact he)
    have hid : n.chain.mBlocksIndex[i - 1]? = some e.bl.prevId := by
      rw [hroot.sound.index, blockIds, List.getElem?_map, he₀, hprev]
      rfl
    have hnodup : n.chain.mBlocksIndex.Nodup := hroot.sound.index ▸ hline.1.nodup
    obtain ⟨hjl, hje⟩ := List.getElem?_eq_some_iff.1 hj
    obtain ⟨hil, hie⟩ := List.getElem?_eq_some_iff.1 hid
    have hij : j = i - 1 := (List.Nodup.getElem_inj_iff hnodup).1 (hje.trans hie.symm)
    have : n.chain.mCheckpoints.isInCheckpointZone f = true :=
      isInCheckpointZone_of_le (by omega) hjz
    rw [hf] at this
    cases this
  · obtain ⟨hez, hang⟩ := halts id e he
    exact ⟨hmin _ (hroot.alts id e he).1 hez, hlow e.bl hang⟩

/-- **One new block.** -/
theorem FlagInZone.newBlock (h : FlagInZone n.chain) (hroot : Rooted env n)
    (hline : MainLine env n.chain.mBlocks) (hspare : SparesZoneEnd env now n bl) (depth : Nat) :
    FlagInZone (stateOf (addNewBlock env now depth bl n)).chain := by
  -- a block beside the chain that is known already changes nothing
  have kept : bl.prevId ≠ n.chain.getTopBlockId env →
      FlagInZone (stateOf (handleAlternativeBlock env now depth bl (getBlockHash env bl) n)).chain →
      FlagInZone (stateOf (addNewBlock env now depth bl n)).chain := by
    intro hside halt
    unfold addNewBlock
    rw [bind_of_ok (get_apply n)]
    split
    · exact h
    · exact halt
  cases hspare with
  | known hk =>
    unfold addNewBlock
    rw [bind_of_ok (get_apply n), if_pos hk]
    exact h
  | onTop top hend =>
    unfold addNewBlock
    rw [bind_of_ok (get_apply n)]
    split
    · exact h
    · rw [if_neg (not_not.2 top)]
      rcases hend with hend | hrefused
      · exact h.push hroot.sound hend
      · exact h.refused hrefused
  | passed side hpassed =>
    refine kept side ?_
    have hswitch : ∀ switch, FlagInZone
        (stateOf (alternativeBlock env switch bl (getBlockHash env bl) n)).chain := by
      intro switch
      unfold alternativeBlock
      have hp : n.chain.mCheckpoints.isHeightPassedZone (getBlockHeight bl).toNat
        (n.chain.getCurrentBlockchainHeight - 1) = true := hpassed
      rw [bind_of_ok (get_apply n), if_pos hp]
      exact h
    cases depth with
    | zero => exact hswitch _
    | succ depth => exact hswitch _
  | beside side hcand =>
    refine kept side ?_
    cases depth with
    | zero => exact h.kept hcand
    | succ depth => exact h.kept hcand
  | inside side zone new main alts =>
    refine kept side ?_
    -- the walls stand at the bottom: no block of the main line or beside it ends the zone
    have hfence : Fenced env 1 [] (fun b => ¬ AtZoneEnd n.chain.mCheckpoints (claimedHeight b)) n :=
      ⟨hroot.sound, hroot.floor, hroot.low, fun i e he _ => main e (List.mem_of_getElem? he),
        fun id e he => ⟨(hroot.alts id e he).1, alts id e he⟩⟩
    have hend := (insideZone_invariant env n.chain.mCheckpoints).keeps_handleAlternativeBlock now
      depth new (getBlockHash env bl) n ⟨hfence, rfl, zone⟩
    intro _
    rw [hend.2.1]
    exact hend.2.2
  | past side zone new alts =>
    refine kept side ?_
    -- the zone is behind us, and no switch reaches back into it
    obtain ⟨f, hf, hlow, hfence⟩ := fenced_of_past hroot hline zone alts
    have hflag : n.chain.mIsInCheckpointZone = false := by
      rw [Bool.eq_false_iff]
      intro hflag
      rw [h hflag] at zone
      cases zone
    have hend := (pastZone_invariant env n.chain.mCheckpoints _ hf).keeps_handleAlternativeBlock now
      depth (hlow bl new) (getBlockHash env bl) n ⟨hfence, rfl, hflag⟩
    intro hflag'
    rw [hend.2.2] at hflag'
    cases hflag'

end

/-! ## Every run -/

/-- The flag is right along every run that spares the end of the zone. -/
theorem TopRun.flagInZone {env : Env} {n : Node} (h : TopRun env (SparesZoneEnd env) n) :
    FlagInZone n.chain := by
  induction h with
  | @init n loaded =>
    obtain ⟨limit, heq⟩ := finishInit_eq n
    rw [heq]
    exact fun hflag => hflag
  | incomingTx h ends ih =>
    rw [(ends.poolOnly h.rooted.1.sound).1]
    exact ih
  | newBlock h cond ends ih =>
    rw [ends.eq_stateOf]
    exact ih.newBlock h.rooted.1 h.rooted.2 cond _
  | @pop n n' now h ends ih =>
    rw [ends.eq_stateOf]
    have hside := keeps_side_popBlock env now n.chain.side n rfl
    have hflag := congrArg Storage.mIsInCheckpointZone hside
    have hcp := congrArg Storage.mCheckpoints hside
    intro hf
    have hz := ih (hflag.symm.trans hf)
    have hcp' : (stateOf (popBlockFromBlockchain env now n)).chain.mCheckpoints =
        n.chain.mCheckpoints := hcp
    rw [hcp']
    exact isInCheckpointZone_of_le (length_pop h.rooted.1.sound now) hz

/-- **Signatures are skipped only inside the checkpoint zone**, in every run
whose new blocks spare the end of the zone. -/
theorem signatures_skipped_only_in_zone {env : Env} {n : Node}
    (h : TopRun env (SparesZoneEnd env) n) :
    FlagInZone n.chain ∧
      ∀ now tx aliasName v pool, n.pool.addTx env now n.chain tx false aliasName = .ok (v, pool) →
        v.1 = true ∨ v.2.mAddedToPool = true →
        RingSignaturesVerified env now n.chain tx ∨
          n.chain.mCheckpoints.isInCheckpointZone n.chain.mBlocks.length = true := by
  have hflag := h.flagInZone
  refine ⟨hflag, fun now tx aliasName v pool hadd hv => ?_⟩
  cases hz : n.chain.mIsInCheckpointZone with
  | true => exact .inr (hflag hz)
  | false => exact .inl (addTx_verified hz hadd hv)

/-! ## On the network -/

/-- A node that has just taken its genesis block. -/
theorem Loaded.of_genesis {env : Env} {cp : Checkpoints} {now depth : Nat} {bl : Block} {n : Node}
    (h : addNewBlock env now depth bl (Node.initial cp) = .ok .added n) : Loaded env n := by
  have hreach : Reachable env n := .genesis h
  have hinv := (mainLine_invariant env).of_reachable (guaranteed_true env).admitted hreach
  refine ⟨hinv.1, hinv.2, (hreach.sound (guaranteed_true env)).2, ?_⟩
  have hpush := addNewBlock_initial h
  have hbeside := handleBlockToMainChain_sameBeside env now bl (getBlockHash env bl)
    (n := Node.initial cp) rfl
  rw [hpush, stateOf_ok] at hbeside
  rcases hbeside with hs | hs
  · exact hs.alts
  · exact hs.alts

/-- A call that drops its answer ends where the call ended. -/
theorem EndsIn.of_bind_pure {α β : Type} {x : NodeM α} {f : α → β} {n n' : Node}
    (h : EndsIn ((x >>= fun a => pure (f a)) n) n') : EndsIn (x n) n' := by
  rcases h with ⟨b, hr⟩ | hr
  · obtain ⟨a, m, ha, hr⟩ := bind_eq_ok.1 hr
    cases hr
    exact .inl ⟨a, ha⟩
  · rcases bind_eq_error.1 hr with hr | ⟨a, m, ha, hr⟩
    · exact .inr hr
    · cases hr

/-- Events one by one make a run. -/
theorem TopRun.runEvents {env : Env} {now depth : Nat} {evs : List Event} {n n' : Node}
    (hn : TopRun env (fun _ _ _ => True) n) (h : runEvents env now depth evs n = some n') :
    TopRun env (fun _ _ _ => True) n' := by
  induction evs generalizing n with
  | nil =>
    cases h
    exact hn
  | cons ev rest ih =>
    have step : ∀ n₁, EndsIn (runEvent env now depth ev n) n₁ → TopRun env (fun _ _ _ => True) n₁ := by
      intro n₁ hends
      cases ev with
      | incomingTx blob kept =>
        have hcall : EndsIn (handleIncomingTx env now blob kept n) n₁ := hends.of_bind_pure
        exact hn.incomingTx hcall
      | newBlock bl =>
        have hcall : EndsIn (addNewBlock env now depth bl n) n₁ := hends.of_bind_pure
        exact hn.newBlock trivial hcall
    unfold DarknetSpace.runEvents at h
    split at h
    · next a n₁ hr => exact ih (step n₁ (.inl ⟨a, hr⟩)) h
    · next n₁ hr => exact ih (step n₁ (.inr hr)) h
    · cases h

namespace Devnet

/-- One checkpoint, at the main line's block of that height. -/
def checkpointAt (height : Nat) : Checkpoints :=
  (∅ : Checkpoints).insert height (getBlockHash env (mainBlock height))

/-- A node with that checkpoint after `init`, and after some calls. -/
def started (height : Nat) : EStateM.Result Exn Node BlockVerdict :=
  addNewBlock env now 3 genesis (Node.initial (checkpointAt height))

/-- A run that starts from a loaded node. -/
def startedRun (height : Nat) (evs : List Event) : Option Node :=
  runEvents env now 3 evs (finishInit (stateOf (started height)))

/-- The node behind it. -/
def startedNode (height : Nat) (evs : List Event) : Node :=
  (startedRun height evs).getD (Node.initial ∅)

theorem topRun_started {height : Nat} {evs : List Event} (hg : isAdded (started height) = true)
    (h : (startedRun height evs).isSome = true) :
    TopRun env (fun _ _ _ => True) (startedNode height evs) := by
  obtain ⟨n, hn⟩ := Option.isSome_iff_exists.1 h
  rw [startedNode, hn]
  exact TopRun.runEvents (.init (Loaded.of_genesis (eq_added hg))) hn

theorem checkRingSignature_eq (hash : Hash) (kImage : KeyImage) (keys : List PublicKey)
    (sigs : List Signature) :
    env.checkRingSignature hash kImage keys sigs = sigs.all (· == nullSig) := rfl

/-- The main line up to the checkpoint at height 60. -/
def toCheckpoint : List Event := longLine ++ [.newBlock (mainBlock 60)]

end Devnet

/-- A block inside the zone. -/
theorem signatures_skipped_only_in_zone_devnet :
    ∃ n, TopRun Devnet.env (SparesZoneEnd Devnet.env) n ∧ n.chain.mIsInCheckpointZone = true ∧
      n.chain.mBlocks.length = 2 ∧ FlagInZone n.chain := by
  have eval :
      let n := finishInit (stateOf (Devnet.started 5))
      let r := addNewBlock Devnet.env Devnet.now 3 (Devnet.mainBlock 1) n
      isAdded (Devnet.started 5) = true ∧ isAdded r = true ∧
        (Devnet.mainBlock 1).prevId = n.chain.getTopBlockId Devnet.env ∧
        ¬ AtZoneEnd n.chain.mCheckpoints n.chain.mBlocks.length ∧
        (stateOf r).chain.mIsInCheckpointZone = true ∧ (stateOf r).chain.mBlocks.length = 2 := by
    decide +kernel
  obtain ⟨hg, hadd, htop, hend, hflag, hlen⟩ := eval
  have hrun : TopRun Devnet.env (SparesZoneEnd Devnet.env) _ :=
    (TopRun.init (Loaded.of_genesis (eq_added hg))).newBlock (.onTop htop (.inl hend))
      (.inl ⟨_, eq_added hadd⟩)
  exact ⟨_, hrun, hflag, hlen, (signatures_skipped_only_in_zone hrun).1⟩

/-- A transaction has come into the pool. -/
def poolTook : Except Exn (TxMemoryPool.Verdict × TxMemoryPool) → Bool
  | .ok (v, _) => v.2.mAddedToPool
  | .error _ => false

theorem exists_of_poolTook {r : Except Exn (TxMemoryPool.Verdict × TxMemoryPool)}
    (h : poolTook r = true) : ∃ v pool, r = .ok (v, pool) ∧ v.2.mAddedToPool = true := by
  cases r with
  | error e => cases h
  | ok p => exact ⟨p.1, p.2, rfl, h⟩

/-- After the block at the last checkpoint, height 60, the flag stays set and the
pool takes a transaction whose signature is wrong. -/
theorem signatures_skipped_past_zone :
    ∃ n tx v pool, TopRun Devnet.env (fun _ _ _ => True) n ∧ n.chain.mIsInCheckpointZone = true ∧
      n.chain.mCheckpoints.isInCheckpointZone n.chain.mBlocks.length = false ∧
      n.pool.addTx Devnet.env Devnet.now n.chain tx false [] = .ok (v, pool) ∧
      v.2.mAddedToPool = true ∧ ¬ RingSignaturesVerified Devnet.env Devnet.now n.chain tx := by
  have eval :
      isAdded (Devnet.started 60) = true ∧
      (Devnet.startedRun 60 Devnet.toCheckpoint).isSome = true ∧
      (Devnet.startedNode 60 Devnet.toCheckpoint).chain.mIsInCheckpointZone = true ∧
      (Devnet.startedNode 60 Devnet.toCheckpoint).chain.mCheckpoints.isInCheckpointZone
        (Devnet.startedNode 60 Devnet.toCheckpoint).chain.mBlocks.length = false ∧
      poolTook ((Devnet.startedNode 60 Devnet.toCheckpoint).pool.addTx Devnet.env Devnet.now
        (Devnet.startedNode 60 Devnet.toCheckpoint).chain (Devnet.spend 9 0 1 5 []) false []) =
          true := by
    decide +kernel
  obtain ⟨hg, hrun, hflag, hzone, hadd⟩ := eval
  have hreach := Devnet.topRun_started hg hrun
  generalize Devnet.startedNode 60 Devnet.toCheckpoint = n at hreach hflag hzone hadd
  obtain ⟨v, pool, hr, hadd⟩ := exists_of_poolTook hadd
  refine ⟨n, _, v, pool, hreach, hflag, hzone, hr, hadd, fun hver => ?_⟩
  obtain ⟨amount, offs, kImage, ring, sig, _, _, hsig, _, hcheck⟩ := hver 0 _ rfl
  cases hsig
  rw [Devnet.checkRingSignature_eq] at hcheck
  exact absurd hcheck (by decide +kernel)

end DarknetSpace
