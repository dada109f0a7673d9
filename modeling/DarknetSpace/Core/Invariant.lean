import DarknetSpace.Core.Core

/-!
# Invariants of a node

`add_new_block` writes the main chain in two ways only: it pushes a block with
`handle_block_to_main_chain` or it pops one. Everything else it writes is
beside the main chain: the alternative chains, the invalid blocks, the
checkpoint-zone flag. A property that survives these three therefore survives
reorganisations, rollbacks and exceptions in the middle of either, however they
nest, and with them every run.

`ChainInvariant` asks for the three: a push, a pop and a change beside the chain. The
lemmas follow the nested calls from the inside out, each for every way out of its
function, and `of_reachable` hands the property to every node of every run. Exceptions
are no exception: what a call had written when it threw has the property as well.
-/

namespace DarknetSpace

open StateExn

/-- The exceptions a run goes on after. -/
def Survivable (e : Exn) : Prop := e = .indexOverflow

/-- The node with other side chains and another checkpoint-zone flag. -/
def Node.withSide (n : Node) (alts invalid : Map Hash BlockEntry) (zone : Bool) : Node :=
  { n with chain := { n.chain with
    mAlternativeChains := alts
    mInvalidBlocks := invalid
    mIsInCheckpointZone := zone } }

/-- What an invariant of the main chain has to survive. -/
structure ChainInvariant (env : Env) (P : Node → Prop) : Prop where
  push : ∀ now bl, KeepsUpTo Survivable P (handleBlockToMainChain env now bl (getBlockHash env bl))
  pop : ∀ now, KeepsUpTo Survivable P (popBlockFromBlockchain env now)
  side : ∀ n alts invalid zone, P n → P (n.withSide alts invalid zone)

namespace ChainInvariant

variable {env : Env} {P : Node → Prop}

theorem keeps_pure {α : Type} (a : α) : KeepsUpTo Survivable P (pure a : NodeM α) :=
  (Keeps.pure a).upTo

theorem keeps_throw {α : Type} (e : Exn) : KeepsUpTo Survivable P (throw e : NodeM α) :=
  (Keeps.throw e).upTo

theorem keeps_readChain {α : Type} (f : Storage → Except Exn α) :
    KeepsUpTo Survivable P (readChain f) :=
  (Keeps.reads _).upTo

/-- The blocks of the old chain, each offered as an alternative block, are pushed one after the
other. -/
theorem pushOldChain {pushOld : Block → Hash → NodeM BlockVerdict}
    (hold : ∀ b, KeepsUpTo Survivable P (pushOld b (getBlockHash env b))) (bs : List Block) :
    KeepsUpTo Survivable P (pushOldChain env pushOld bs) := by
  induction bs with
  | nil => exact keeps_pure _
  | cons b rest ih => exact .bind (hold b) fun v => .ite ih (keeps_pure _)

section

variable (h : ChainInvariant env P)

include h

theorem setCheckpointZone (height : Nat) :
    KeepsUpTo Survivable P (onChain (modify (·.setCheckpointZone height))) :=
  fun n hn => h.side n n.chain.mAlternativeChains n.chain.mInvalidBlocks _ hn

theorem modifyAlts (f : Storage → Map Hash BlockEntry) :
    KeepsUpTo Survivable P (onChain (modify fun s => { s with mAlternativeChains := f s })) :=
  fun n hn => h.side n (f n.chain) n.chain.mInvalidBlocks n.chain.mIsInCheckpointZone hn

theorem addBlockAsInvalid (id : Hash) (e : BlockEntry) :
    KeepsUpTo Survivable P (onChain (modify (addBlockAsInvalid id e))) :=
  fun n hn => h.side n n.chain.mAlternativeChains _ n.chain.mIsInCheckpointZone hn

/-! ## Switching chains -/

/-- Popping any number of blocks, by induction on the number. -/
theorem disconnectBlocks (now count : Nat) :
    KeepsUpTo Survivable P (disconnectBlocks env now count) := by
  induction count with
  | zero => exact keeps_pure _
  | succ count ih =>
    refine .bind (keeps_readChain _) fun top => .bind (h.pop now) fun r => .ite (keeps_pure _) ?_
    refine .bind ih fun bs => ?_
    cases bs with
    | none => exact keeps_pure _
    | some bs => exact keeps_pure _

/-- Pushing the blocks of the original chain back, by induction on the blocks. -/
theorem reconnectBlocks (now : Nat) (bs : List Block) :
    KeepsUpTo Survivable P (reconnectBlocks env now bs) := by
  induction bs with
  | nil => exact keeps_pure _
  | cons b rest ih => exact .bind (h.push now b) fun v => .ite ih (keeps_pure _)

/-- A rollback pops to the split and pushes the original blocks. -/
theorem rollbackBlockchainSwitching (now : Nat) (original : List Block) (height : Nat) :
    KeepsUpTo Survivable P (rollbackBlockchainSwitching env now original height) := by
  refine .bind Keeps.get.upTo fun n => .bind (h.disconnectBlocks now _) fun bs => ?_
  cases bs with
  | none => exact keeps_pure _
  | some bs => exact h.reconnectBlocks now original

/-- The entries behind a refused block of an alternative chain are blacklisted one by one. -/
theorem orphanRest (chain : AltChain) : KeepsUpTo Survivable P (orphanRest chain) := by
  cases chain with
  | nil => exact keeps_pure _
  | cons p rest =>
    exact .bind (h.addBlockAsInvalid p.1 p.2) fun _ =>
      .bind (h.modifyAlts fun s => s.mAlternativeChains.erase p.1) fun _ =>
        .ite (keeps_pure _) (keeps_throw _)

/-- The blocks of an alternative chain are pushed until one is refused; the switch is then rolled
back. -/
theorem connectAltChain (now : Nat) (disconnected : List Block) (height : Nat) (chain : AltChain) :
    KeepsUpTo Survivable P (connectAltChain env now disconnected height chain) := by
  induction chain with
  | nil => exact keeps_pure _
  | cons p rest ih =>
    refine .bind (h.push now p.2.bl) fun v => .ite ih ?_
    exact .bind (h.rollbackBlockchainSwitching now disconnected height) fun _ =>
      .bind (h.addBlockAsInvalid _ p.2) fun _ =>
        .bind (h.modifyAlts fun s => s.mAlternativeChains.erase p.1) fun _ =>
          .bind (h.orphanRest rest) fun _ => keeps_pure _

/-- A whole switch: pops to the split, pushes of the alternative blocks, then the old blocks offered
as alternative ones. Each of the three keeps the property, so the switch does. -/
theorem switchToAlternativeBlockchain {pushOld : Block → Hash → NodeM BlockVerdict}
    (hold : ∀ b, KeepsUpTo Survivable P (pushOld b (getBlockHash env b))) (now : Nat)
    (chain : AltChain) :
    KeepsUpTo Survivable P (switchToAlternativeBlockchain env now pushOld chain) := by
  cases chain with
  | nil => exact keeps_pure _
  | cons p rest =>
    refine .bind Keeps.get.upTo fun n => .ite (keeps_pure _) ?_
    refine .bind (h.disconnectBlocks now _) fun bs => ?_
    cases bs with
    | none => exact keeps_pure _
    | some disconnected =>
      refine .bind (h.connectAltChain now disconnected _ (p :: rest)) fun r => .ite (keeps_pure _) ?_
      refine .bind (pushOldChain hold disconnected) fun r => .ite ?_ ?_
      · exact .bind (h.rollbackBlockchainSwitching now disconnected _) fun _ => keeps_pure _
      · exact .bind (h.modifyAlts fun s => (eraseAltChain (p :: rest) s).mAlternativeChains)
          fun _ => keeps_pure _

/-! ## Alternative blocks -/

/-- Storing an alternative block writes beside the main chain only, and the switch it may set off
keeps the property. -/
theorem keepAlternativeBlock {switch : AltChain → NodeM Bool}
    (hswitch : ∀ chain, KeepsUpTo Survivable P (switch chain)) (b : Block) (id : Hash)
    (c : AltCandidate) : KeepsUpTo Survivable P (keepAlternativeBlock switch b id c) := by
  refine .bind (h.setCheckpointZone c.height) fun _ => .bind Keeps.get.upTo fun n =>
    .ite (keeps_pure _) (.bind (keeps_readChain _) fun prev => .ite (keeps_pure _) ?_)
  refine .bind (h.modifyAlts fun s => s.mAlternativeChains.insert id (altBlockEntry b c prev))
    fun _ => .ite (.bind (hswitch _) fun r => keeps_pure _) (keeps_pure _)

/-- An alternative block is stored, or refused before anything is written. -/
theorem alternativeBlock {switch : AltChain → NodeM Bool}
    (hswitch : ∀ chain, KeepsUpTo Survivable P (switch chain)) (b : Block) (id : Hash) :
    KeepsUpTo Survivable P (alternativeBlock env switch b id) := by
  have body : KeepsUpTo Survivable P (alternativeBlockBody env switch b id) := by
    refine .bind (keeps_readChain _) fun c => ?_
    cases c with
    | inl v => exact keeps_pure _
    | inr c => exact h.keepAlternativeBlock hswitch b id c
  refine .bind Keeps.get.upTo fun n => .ite (keeps_pure _) fun n hn => ?_
  -- the handler swallows the only exception a run survives
  unfold catchEntry
  cases hb : alternativeBlockBody env switch b id n with
  | ok v n' => exact body.ok hn hb
  | error e n' =>
    cases e with
    | indexOverflow => exact body.error hn hb rfl
    | undefinedBehaviour => exact fun he => by cases he
    | endless => exact fun he => by cases he

/-- `handle_alternative_block` calls itself through the switch with one level less, so the induction
is on the depth. -/
theorem handleAlternativeBlock (now depth : Nat) (b : Block) (id : Hash) :
    KeepsUpTo Survivable P (handleAlternativeBlock env now depth b id) := by
  induction depth generalizing b id with
  | zero => exact h.alternativeBlock (fun _ => keeps_throw _) b id
  | succ depth ih =>
    exact h.alternativeBlock
      (h.switchToAlternativeBlockchain (fun b => ih b (getBlockHash env b)) now) b id

/-- `add_new_block` pushes on the top or handles an alternative block; known and invalid blocks are
turned away. -/
theorem addNewBlock (now depth : Nat) (bl : Block) :
    KeepsUpTo Survivable P (addNewBlock env now depth bl) :=
  .bind Keeps.get.upTo fun _ => .ite (keeps_pure _)
    (.ite (h.handleAlternativeBlock now depth bl _) (h.push now bl))

/-- An invariant of the main chain that incoming transactions keep holds in
every state of every run. -/
theorem of_reachable
    (genesis : ∀ checkpoints now depth bl n,
      DarknetSpace.addNewBlock env now depth bl (Node.initial checkpoints) = .ok .added n → P n)
    (incomingTx : ∀ now blob kept, KeepsUpTo Survivable P (handleIncomingTx env now blob kept))
    {n : Node} (hn : Reachable env n) : P n := by
  induction hn with
  | genesis hg => exact genesis _ _ _ _ _ hg
  | @step n n' now depth ev _ hends ih =>
    have hev : KeepsUpTo Survivable P (runEvent env now depth ev) := by
      cases ev with
      | incomingTx blob kept => exact .bind (incomingTx now blob kept) fun v => keeps_pure _
      | newBlock bl => exact .bind (h.addNewBlock now depth bl) fun v => keeps_pure _
    rcases hends with ⟨a, hr⟩ | hr
    · exact hev.ok ih hr
    · exact hev.error ih hr rfl

end

end ChainInvariant

end DarknetSpace
