import DarknetSpace.Chain.Refusal

/-!
# Blocks on top of the main chain are not banned

`handle_block_to_main_chain` means to remember a block whose transactions have
wrong inputs in `m_invalid_blocks`, for ever. A transaction id does not commit
to the signatures, so that would let anyone who hands the node a transaction
with broken signatures, marked as part of a block, ban the block that carries
the sound copy. It does not come to that: the undo in front of
`add_block_as_invalid` throws (`Unpushed.lean`), so the call leaves
`m_invalid_blocks` as it was, however it ends.

A block that arrives beside the main chain is another matter: it is tried when
its branch is switched to, and the cleanup of the switch bans it
(`Banned.lean`).
-/

namespace DarknetSpace

open StateExn

/-- No way out of `handle_block_to_main_chain` has written `m_invalid_blocks`. -/
theorem handleBlockToMainChain_invalidBlocks (env : Env) (now : Nat) (bl : Block) (id : Hash)
    (n : Node) :
    (stateOf (handleBlockToMainChain env now bl id n)).chain.mInvalidBlocks =
      n.chain.mInvalidBlocks := by
  unfold handleBlockToMainChain
  rw [bind_of_ok (get_apply n)]
  cases hhead : checkBlockHeader env now n.chain bl with
  | some v => rfl
  | none =>
    simp only
    rw [bind_of_ok (onChain_modify _ n), bind_of_ok (get_apply _)]
    split
    · generalize hm : ({ n with chain := n.chain.setCheckpointZone n.chain.mBlocks.length } : Node)
        = m
      have hkeep : m.chain.mInvalidBlocks = n.chain.mInvalidBlocks := by rw [← hm]; rfl
      rw [← hkeep]
      obtain ⟨txe, s', sa, -, -, ⟨n', h, hi⟩ | ⟨e, n', h, hab⟩⟩ | ⟨s', hadd, h⟩ | ⟨e, s', hadd, h⟩ :=
        connectBlock_cases env now bl id m
      · rw [h]
        exact hi
      · rw [h]
        exact hab.invalid
      all_goals
        have := addTransactionFromBlock_frame env bl.minerTx (getTransactionHash env bl.minerTx)
          m.chain.mBlocks.length 0 m.chain.frame m.chain rfl
        rw [hadd] at this
        rw [h]
        have := congrArg Storage.mInvalidBlocks this
        exact this
    · rfl

/-- A block that extends the main chain is never remembered as invalid. -/
theorem addNewBlock_invalidBlocks {env : Env} {n : Node} {bl : Block} (now depth : Nat)
    (hext : bl.prevId = n.chain.getTopBlockId env) :
    (stateOf (addNewBlock env now depth bl n)).chain.mInvalidBlocks = n.chain.mInvalidBlocks := by
  unfold addNewBlock
  rw [bind_of_ok (get_apply n)]
  split
  · rfl
  · rw [if_neg (not_not.2 hext)]
    exact handleBlockToMainChain_invalidBlocks env now bl (getBlockHash env bl) n

end DarknetSpace
