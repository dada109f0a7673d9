import DarknetSpace.Core.AltBlock

/-!
# The alternative-chain store along a run

Keeping a block, extending the main chain and a reorganisation that goes through keep
the shape of the store (`StoreShape`). What does not: ageing, which takes an ancestor
before its descendants; the cleanup of a failed switch, which leaves the other children
of what it erases; and every way out of a switch that leaves the main chain short, or
old blocks in the store that are back on the main chain.

So `alternative_store_well_formed` is about the runs whose calls are none of these: in
every state of such a run the store is well formed. `alternative_store_left_dangling` is
a run of a node with a call of the second kind, after which a block hangs on nothing.
-/

namespace DarknetSpace

open StateExn

/-! ## Every run -/

/-- The states between two calls, every new block meeting `C` and every prune
`D`. -/
inductive StoreRun (env : Env) (C : Nat → Node → Block → Prop) (D : Storage → Prop) : Node → Prop where
  | genesis {checkpoints : Checkpoints} {now depth : Nat} {bl : Block} {n : Node}
      (h : addNewBlock env now depth bl (Node.initial checkpoints) = .ok .added n) :
      StoreRun env C D n
  | incomingTx {n n' : Node} {now : Nat} {blob : Blob} {kept : Bool} (h : StoreRun env C D n)
      (ends : EndsIn (handleIncomingTx env now blob kept n) n') : StoreRun env C D n'
  | newBlock {n n' : Node} {now depth : Nat} {bl : Block} (h : StoreRun env C D n)
      (cond : C now n bl) (ends : EndsIn (addNewBlock env now depth bl n) n') : StoreRun env C D n'
  | prune {n : Node} (h : StoreRun env C D n) (cond : D n.chain) :
      StoreRun env C D { n with chain := pruneAgedAltBlocks n.chain }

theorem StoreRun.shaped {env : Env} {n : Node}
    (h : StoreRun env (KeepsShape env) AgesFromTheTop n) : Shaped env n := by
  induction h with
  | genesis h =>
    have hloaded := Loaded.of_genesis h
    refine ⟨hloaded.sound, hloaded.line, ?_, ?_, ?_⟩
    all_goals rw [hloaded.alts]
    · intro id e he
      rw [Std.ExtTreeMap.getElem?_empty] at he
      cases he
    · intro id e he
      rw [Std.ExtTreeMap.getElem?_empty] at he
      cases he
    · exact fun id _ => Std.ExtTreeMap.getElem?_empty
  | incomingTx _ ends ih =>
    obtain ⟨hchain, hsound⟩ := ends.poolOnly ih.sound
    refine ⟨hsound, ?_, ?_⟩
    all_goals rw [hchain]
    · exact ih.line
    · exact ih.shape
  | newBlock _ cond ends ih => exact ih.newBlock cond ends
  | prune _ cond ih =>
    exact ⟨⟨ih.sound.index, ih.sound.outputs, ih.sound.txs, ih.sound.pool⟩, ih.line,
      pruned_shape cond ih.shape⟩

/-- Every entry hangs one above a main-chain block or another entry, the walk
back from it ends on the main chain at the recorded height, and no block is in
both places. -/
structure StoreWellFormed (env : Env) (s : Storage) : Prop where
  parent : ∀ (id : Hash) e, s.mAlternativeChains[id]? = some e →
    (∃ h b, e.height = h + 1 ∧ s.mBlocks[h]? = some b ∧ getBlockHash env b.bl = e.bl.prevId) ∨
      ∃ p, s.mAlternativeChains[e.bl.prevId]? = some p ∧ e.height = p.height + 1
  walk : ∀ (id : Hash) e, s.mAlternativeChains[id]? = some e →
    ∃ fuel front rest, altChainTo s.mAlternativeChains fuel id = .ok (front :: rest) ∧
      ∃ h b, front.2.height = h + 1 ∧ s.mBlocks[h]? = some b ∧
        getBlockHash env b.bl = front.2.bl.prevId
  disjoint : ∀ id ∈ s.mBlocksIndex, id ∉ s.mAlternativeChains

/-- **The alternative-chain store is well formed** in every run whose calls keep
its shape. -/
theorem alternative_store_well_formed {env : Env} {n : Node}
    (h : StoreRun env (KeepsShape env) AgesFromTheTop n) : StoreWellFormed env n.chain := by
  have hn := h.shaped
  have main : ∀ (k : Nat) (id : Hash), n.chain.mBlocksIndex[k]? = some id →
      ∃ b : BlockEntry, n.chain.mBlocks[k]? = some b ∧ getBlockHash env b.bl = id := by
    intro k id hk
    rw [hn.sound.index, blockIds, List.getElem?_map] at hk
    exact Option.map_eq_some_iff.1 hk
  refine ⟨fun id e he => ?_, fun id e he => ?_, fun id hid hmem => ?_⟩
  · rcases hn.shape.linked id e he with ⟨k, hk, hmain⟩ | hparent
    · obtain ⟨b, hb⟩ := main k _ hmain
      exact .inl ⟨k, b, hk, hb⟩
    · exact .inr hparent
  · obtain ⟨fuel, front, rest, hway, k, hk, hmain⟩ := hn.shape.walk he
    obtain ⟨b, hb⟩ := main k _ hmain
    exact ⟨fuel, front, rest, hway, k, b, hk, hb⟩
  · have hnone := hn.shape.disjoint id hid
    rw [Std.ExtTreeMap.mem_iff_isSome_getElem?, hnone] at hmem
    cases hmem

/-! ## On the network -/

namespace Devnet

theorem beside_of_joining {n : Node} {b : Block} {x : AltCandidate × Nat} (h : joining n b = some x)
    (hlight : ¬ Overtakes n b x.1 x.2) : ∀ c prev, Joins env n b c prev → ¬ Overtakes n b c prev := by
  intro c prev hj
  obtain ⟨rfl, rfl⟩ := (joins_of_joining h).unique hj
  exact hlight

/-- No entry is aged on a short chain. -/
theorem agesFromTheTop_of_short {s : Storage} (h : s.mBlocks.length ≤ currencyAltBlockLivetimeCount) :
    AgesFromTheTop s := by
  intro id e parent _ _ _
  unfold Storage.isAged Storage.getCurrentBlockchainHeight
  rw [Bool.and_eq_false_iff]
  right
  rw [decide_eq_false_iff_not]
  omega

/-- The same block as on another line, with a transaction nobody has. -/
def unknownTxBlock : Block := { altBlock 1 0 with txHashes := [99] }

/-- A block beside the second of the main line, and another line from genesis
that starts with an unknown transaction and overtakes. -/
def fork : Block := block 2 202 1 (coinbase 2 3 0 []) []
def forkedBranch : List Event :=
  [.newBlock (mainBlock 1), .newBlock (mainBlock 2), .newBlock fork, .newBlock unknownTxBlock,
    .newBlock (altBlock 2 101), .newBlock (altBlock 3 102)]

end Devnet

namespace Devnet

/-- A node along a reorganisation: after the first block, after a block beside
it, and after the block that overtakes. -/
def second : Node := stateOf (addNewBlock env now 3 (mainBlock 1) first)
def third : Node := stateOf (addNewBlock env now 3 (altBlock 1 0) second)
def fourth : Node := stateOf (addNewBlock env now 3 (altBlock 2 101) third)

/-- The blocks of `n` off, the chain of `b` connected. -/
def popped (n : Node) (b : Block) (x : AltCandidate × Nat) :
    EStateM.Result Exn Node (Option (List Block)) :=
  disconnectBlocks env now (n.chain.mBlocks.length - splitHeight (joinedChain env b x.1 x.2))
    (joined env n b x.1 x.2)
def pushed (n : Node) (b : Block) (x : AltCandidate × Nat) : EStateM.Result Exn Node Bool :=
  reconnectBlocks env now ((joinedChain env b x.1 x.2).map (·.2.bl)) (stateOf (popped n b x))

end Devnet

/-- A reorganisation, then a prune. -/
theorem alternative_store_well_formed_devnet :
    ∃ n, StoreRun Devnet.env (KeepsShape Devnet.env) AgesFromTheTop n ∧ n.chain.mBlocks.length = 3 ∧
      StoreWellFormed Devnet.env n.chain := by
  have eval :
      isAdded (addNewBlock Devnet.env Devnet.now 3 Devnet.genesis (Node.initial ∅)) = true ∧
      isAdded (addNewBlock Devnet.env Devnet.now 3 (Devnet.mainBlock 1) Devnet.first) = true ∧
      (Devnet.mainBlock 1).prevId = Devnet.first.chain.getTopBlockId Devnet.env ∧
      returned (addNewBlock Devnet.env Devnet.now 3 (Devnet.altBlock 1 0) Devnet.second) =
        some .kept ∧
      (∃ x ∈ Devnet.joining Devnet.second (Devnet.altBlock 1 0),
        ¬ Overtakes Devnet.second (Devnet.altBlock 1 0) x.1 x.2) ∧
      isAdded (addNewBlock Devnet.env Devnet.now 3 (Devnet.altBlock 2 101) Devnet.third) = true ∧
      (∃ x ∈ Devnet.joining Devnet.third (Devnet.altBlock 2 101),
        Overtakes Devnet.third (Devnet.altBlock 2 101) x.1 x.2 ∧
        returned (Devnet.popped Devnet.third (Devnet.altBlock 2 101) x) =
          some (some [Devnet.mainBlock 1]) ∧
        returned (Devnet.pushed Devnet.third (Devnet.altBlock 2 101) x) = some true ∧
        returned (handleAlternativeBlock Devnet.env Devnet.now 0 (Devnet.mainBlock 1)
          (getBlockHash Devnet.env (Devnet.mainBlock 1))
          (stateOf (Devnet.pushed Devnet.third (Devnet.altBlock 2 101) x))) = some .kept) ∧
      Devnet.fourth.chain.mBlocks.length = 3 := by
    decide +kernel
  obtain ⟨hg, h₁, htop, h₂, ⟨x, hx, hlight⟩, h₃, ⟨y, hy, hover, hpop, hpush, haside⟩, hlen⟩ := eval
  have run₁ : StoreRun Devnet.env (KeepsShape Devnet.env) AgesFromTheTop Devnet.first :=
    .genesis (eq_added hg)
  have run₂ : StoreRun Devnet.env (KeepsShape Devnet.env) AgesFromTheTop Devnet.second :=
    run₁.newBlock (.onTop htop) (.inl ⟨_, eq_added h₁⟩)
  have run₃ : StoreRun Devnet.env (KeepsShape Devnet.env) AgesFromTheTop Devnet.third :=
    run₂.newBlock (.beside (Devnet.beside_of_joining hx hlight)) (.inl ⟨_, eq_returned h₂⟩)
  have hconn : Connects Devnet.env Devnet.now Devnet.third (Devnet.altBlock 2 101) y.1 y.2
      [Devnet.mainBlock 1] (stateOf (Devnet.pushed Devnet.third (Devnet.altBlock 2 101) y)) :=
    ⟨Devnet.joins_of_joining hy, hover, _, eq_returned hpop, eq_returned hpush⟩
  have run₄ : StoreRun Devnet.env (KeepsShape Devnet.env) AgesFromTheTop Devnet.fourth :=
    run₃.newBlock (.switched hconn (.cons (eq_returned haside) .nil)) (.inl ⟨_, eq_added h₃⟩)
  generalize Devnet.fourth = n at run₄ hlen
  have run := run₄.prune (Devnet.agesFromTheTop_of_short (by rw [hlen]; decide))
  exact ⟨_, run, hlen, alternative_store_well_formed run⟩

theorem Reachable.storeRun {env : Env} {n : Node} (h : Reachable env n) :
    StoreRun env (fun _ _ _ => True) (fun _ => True) n := by
  induction h with
  | genesis h => exact .genesis h
  | @step n n' now depth ev _ ends ih =>
    cases ev with
    | incomingTx blob kept =>
      have hcall : EndsIn (handleIncomingTx env now blob kept n) n' := ends.of_bind_pure
      exact ih.incomingTx hcall
    | newBlock bl =>
      have hcall : EndsIn (addNewBlock env now depth bl n) n' := ends.of_bind_pure
      exact ih.newBlock trivial hcall

/-- The switch to the line with the unknown transaction throws with the main
line off, and the block beside its second block hangs on nothing. -/
theorem alternative_store_left_dangling :
    ∃ n, StoreRun Devnet.env (fun _ _ _ => True) (fun _ => True) n ∧
      ¬ StoreWellFormed Devnet.env n.chain := by
  have eval :
      (Devnet.run ∅ Devnet.forkedBranch).isSome = true ∧
      ∃ e ∈ (Devnet.node ∅ Devnet.forkedBranch).chain.mAlternativeChains[
          getBlockHash Devnet.env Devnet.fork]?,
        e.height = 2 ∧
        (Devnet.node ∅ Devnet.forkedBranch).chain.mBlocks.length = 1 ∧
        (Devnet.node ∅ Devnet.forkedBranch).chain.mAlternativeChains[e.bl.prevId]? = none := by
    decide +kernel
  obtain ⟨hrun, e, he, hheight, hlen, hnone⟩ := eval
  have hreach := Devnet.reachable_node ∅ Devnet.forkedBranch hrun
  generalize Devnet.node ∅ Devnet.forkedBranch = n at hreach he hlen hnone
  refine ⟨n, hreach.storeRun, fun hw => ?_⟩
  rcases hw.parent _ e he with ⟨k, b, hk, hb, -⟩ | ⟨p, hp, -⟩
  · have := (List.getElem?_eq_some_iff.1 hb).1
    omega
  · rw [hnone] at hp
    cases hp

end DarknetSpace
