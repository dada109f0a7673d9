import DarknetSpace.Chain.AltWindow
import DarknetSpace.Chain.AltPad

/-!
# What an alternative block has passed

`altCandidate` runs through eight exits. A block that comes out as a candidate
has taken none of them; what that means is said once here, and everything about
alternative blocks is derived from it.

The fields say where the block hangs and on what: the chain it would be on, the split,
the test of its time against the window of that chain, the difficulty there, and the
proof of work against the scratchpad as it would be with the blocks of that chain in it.
None of the checks looks at the transactions of the block or at the amount of the
coinbase; that waits for a switch.
-/

namespace DarknetSpace

theorem getElem?_of_blockAt {s : Storage} {i : Nat} {e : BlockEntry} (h : s.blockAt i = .ok e) :
    s.mBlocks[i]? = some e := by
  unfold Storage.blockAt at h
  split at h
  · next hi => rw [hi, Except.ok.inj h]
  · cases h

theorem getElem?_of_blockBefore {s : Storage} {i : Nat} {e : BlockEntry}
    (h : s.blockBefore i = .ok e) : s.mBlocks[i - 1]? = some e := by
  cases i with
  | zero => cases h
  | succ i => exact getElem?_of_blockAt h

theorem getElem?_of_indexHeight {index : List Hash} {id : Hash} {i : Nat}
    (h : indexHeight index id = some i) : index[i]? = some id := by
  obtain ⟨hi, heq, -⟩ := List.idxOf?_eq_some_iff.1 h
  rw [List.getElem?_eq_getElem hi, heq]

/-- The chain `b` extends hangs on the main chain right below `split`. -/
def HangsAt (env : Env) (s : Storage) (b : Block) (split : Nat) : AltChain → Prop
  | [] => indexHeight s.mBlocksIndex b.prevId = some (split - 1)
  | (_, front) :: _ => front.height = split ∧
      ∃ e, s.mBlocks[split - 1]? = some e ∧ getBlockHash env e.bl = front.bl.prevId

/-- The candidate `c` for `b`, on a chain that splits off at `split`. -/
structure AltJudged (env : Env) (s : Storage) (b : Block) (c : AltCandidate) (split : Nat) :
    Prop where
  chain : altChainTo s.mAlternativeChains (s.mAlternativeChains.size + 1) b.prevId = .ok c.altChain
  split_pos : 1 ≤ split
  hangs : HangsAt env s b split c.altChain
  timestamps : altTimestampTest s.mBlocks split (c.altChain.map (·.2)) b = true
  height : c.height = ((c.altChain.map (·.2)).getLast?.map (·.height + 1)).getD split
  difficulty : getNextDifficultyForAlternativeChain s.mBlocks (c.altChain.map (·.2)) c.height =
    .ok c.difficulty
  pad : ∃ base pad patch main, s.mBlocks[split]? = some base ∧
    altScratchpad env (c.altChain.map (·.2)) [] ∅ = .ok (pad, patch) ∧
    mainLinePatches env (s.mBlocks.drop split) ∅ = .ok (some main) ∧
    c.scratchOffset = base.scratchOffset + pad.length ∧
    env.checkHash (env.longhash b c.height (altScratchpadAt s.mScratchpad pad
      (mergePatches base.scratchOffset main patch) base.scratchOffset c.scratchOffset))
      c.difficulty = true

/-- `altCandidate` behind the connection to the main chain. -/
def judgeAt (env : Env) (s : Storage) (b : Block) (altChain : AltChain) (split : Nat)
    (timestamps : List UInt64) : Except Exn (BlockVerdict ⊕ AltCandidate) := do
  let entries := altChain.map (·.2)
  let (pad, patch) ← altScratchpad env entries [] ∅
  if ¬ Storage.checkBlockTimestamp timestamps b then return .inl .failed
  let height := (entries.getLast?.map (·.height + 1)).getD split
  if split = 0 then return .inl .refused
  let base ← s.blockAt split
  let scratchOffset := base.scratchOffset + pad.length
  if scratchOffset = 0 then return .inl .refused
  match ← mainLinePatches env (s.mBlocks.drop split) ∅ with
  | none => return .inl .refused
  | some main =>
    let patch := mergePatches base.scratchOffset main patch
    let difficulty ← getNextDifficultyForAlternativeChain s.mBlocks entries height
    if difficulty = 0 then return .inl .refused
    let pow := env.longhash b height
      (altScratchpadAt s.mScratchpad pad patch base.scratchOffset scratchOffset)
    if ¬ env.checkHash pow difficulty then return .inl .failed
    return .inr { altChain, height, scratchOffset, difficulty }

/-- How the chain below a candidate was found. -/
theorem altCandidate_connected {env : Env} {s : Storage} {b : Block} {c : AltCandidate}
    (h : altCandidate env s b = .ok (.inr c)) :
    ∃ altChain split,
      altChainTo s.mAlternativeChains (s.mAlternativeChains.size + 1) b.prevId = .ok altChain ∧
      HangsAt env s b split altChain ∧
      judgeAt env s b altChain split (completeTimestampsVector s.mBlocks (split - 1)
        ((altChain.map (·.2)).map (·.bl.timestamp)).reverse) = .ok (.inr c) := by
  unfold altCandidate at h
  simp only at h
  split at h
  · cases h
  · obtain ⟨altChain, hchain, h⟩ := StateExn.bind_eq_ok_except.1 h
    cases altChain with
    | nil =>
      cases hi : indexHeight s.mBlocksIndex b.prevId with
      | none =>
        rw [hi] at h
        cases h
      | some k =>
        rw [hi] at h
        exact ⟨[], k + 1, hchain, hi, h⟩
    | cons p rest =>
      simp only [List.map_cons] at h
      split at h
      · cases h
      · obtain ⟨before, hbefore, h⟩ := StateExn.bind_eq_ok_except.1 h
        split at h
        · cases h
        · next hhash =>
          exact ⟨p :: rest, p.2.height, hchain,
            ⟨rfl, before, getElem?_of_blockBefore hbefore, not_not.1 hhash⟩, h⟩

theorem altCandidate_judged {env : Env} {s : Storage} {b : Block} {c : AltCandidate}
    (h : altCandidate env s b = .ok (.inr c)) : ∃ split, AltJudged env s b c split := by
  obtain ⟨altChain, split, hchain, hhangs, h⟩ := altCandidate_connected h
  refine ⟨split, ?_⟩
  unfold judgeAt at h
  simp only at h
  obtain ⟨⟨pad, patch⟩, hpad, h⟩ := StateExn.bind_eq_ok_except.1 h
  split at h
  · cases h
  · next hts =>
    split at h
    · cases h
    · next hsplit =>
      obtain ⟨base, hbase, h⟩ := StateExn.bind_eq_ok_except.1 h
      split at h
      · -- an empty scratchpad
        cases h
      · obtain ⟨main, hmain, h⟩ := StateExn.bind_eq_ok_except.1 h
        cases main with
        | none => cases h
        | some main =>
          obtain ⟨difficulty, hdiff, h⟩ := StateExn.bind_eq_ok_except.1 h
          split at h
          · cases h
          · split at h
            · cases h
            · next hpow =>
              cases h
              exact ⟨hchain, Nat.pos_of_ne_zero hsplit, hhangs, not_not.1 hts, rfl, hdiff, base, pad,
                patch, main, getElem?_of_blockAt hbase, hpad, hmain, rfl, not_not.1 hpow⟩

end DarknetSpace
