import DarknetSpace.Core.StoreShape

/-!
# A switch, seen from the store

A switch disconnects the main chain down to the split, connects the alternative blocks
one by one, and keeps the old ones aside; or it fails on one of them and puts the old
ones back. `index_disconnected`, `index_reconnected` and `index_restored` say what the
block index is behind each of these, and `KeptAside.asideUpTo` that the old blocks join
the store one above the other.

The last part says which calls keep the shape (`KeepsShape`): a block on the top or
beside the main chain, and a switch that goes through, or that fails in one of the ways
that leave nothing dangling. Ageing keeps it if it takes blocks from the top
(`AgesFromTheTop`), which the code does not see to.
-/

namespace DarknetSpace

open StateExn

/-! ## The main chain along a switch -/

section

variable {env : Env} {now : Nat}

theorem blockIds_eq_map (bs : List BlockEntry) :
    blockIds env bs = (bs.map (·.bl)).map (getBlockHash env) := by
  rw [blockIds, List.map_map]
  rfl

theorem index_disconnected {count : Nat} {n n' : Node} {old : List Block}
    (hn : Sound env (fun _ => True) n) (h : disconnectBlocks env now count n = .ok (some old) n') :
    Sound env (fun _ => True) n' ∧
      n'.chain.mBlocksIndex = n.chain.mBlocksIndex.take (n.chain.mBlocks.length - count) ∧
      old.map (getBlockHash env) = n.chain.mBlocksIndex.drop (n.chain.mBlocks.length - count) := by
  obtain ⟨hn', -, hblocks, hold⟩ := disconnectBlocks_some hn h
  refine ⟨hn', ?_, ?_⟩
  · have htake : forgetFlags n'.chain.mBlocks =
        forgetFlags (n.chain.mBlocks.take (n.chain.mBlocks.length - count)) := by
      rw [hblocks, forgetFlags, forgetFlags, List.map_take]
    rw [hn'.index, hn.index, blockIds_congr htake, blockIds, blockIds, List.map_take]
  · rw [hold, hn.index, blockIds_eq_map, List.map_drop, List.map_drop]

theorem Connected.index_eq {bl : Block} {n n' : Node}
    (c : Connected env now bl (getBlockHash env bl) n n') (hn : Sound env (fun _ => True) n) :
    n'.chain.mBlocksIndex = n.chain.mBlocksIndex ++ [getBlockHash env bl] := by
  rw [(c.sound hn).index, hn.index, blockIds_congr (c.blocks_eq hn), blockIds, List.map_append]
  rfl

theorem index_reconnected {bs : List Block} {n n' : Node} (hn : Sound env (fun _ => True) n)
    (h : reconnectBlocks env now bs n = .ok true n') :
    Sound env (fun _ => True) n' ∧
      n'.chain.mBlocksIndex = n.chain.mBlocksIndex ++ bs.map (getBlockHash env) := by
  induction bs generalizing n with
  | nil =>
    cases h
    exact ⟨hn, (List.append_nil _).symm⟩
  | cons b rest ih =>
    unfold reconnectBlocks at h
    obtain ⟨v, n₁, hpush, h⟩ := bind_eq_ok.1 h
    split at h
    · next hv =>
      rw [eq_added_of_accepted hpush hv] at hpush
      obtain ⟨c⟩ := handleBlockToMainChain_added hpush
      obtain ⟨hn', hidx⟩ := ih (c.sound hn) h
      refine ⟨hn', ?_⟩
      rw [hidx, c.index_eq hn, List.append_assoc, List.map_cons, List.singleton_append]
    · cases h

/-- A rollback that goes through puts the old blocks back. -/
theorem index_rolledBack {old : List Block} {height : Nat} {n n' : Node}
    (hn : Sound env (fun _ => True) n) (hheight : height ≤ n.chain.mBlocks.length)
    (h : rollbackBlockchainSwitching env now old height n = .ok true n') :
    Sound env (fun _ => True) n' ∧
      n'.chain.mBlocksIndex = n.chain.mBlocksIndex.take height ++ old.map (getBlockHash env) := by
  unfold rollbackBlockchainSwitching at h
  rw [bind_of_ok (get_apply n)] at h
  obtain ⟨bs, m, hpop, h⟩ := bind_eq_ok.1 h
  cases bs with
  | none => cases h
  | some bs =>
    obtain ⟨hm, hidx, -⟩ := index_disconnected hn hpop
    obtain ⟨hn', hidx'⟩ := index_reconnected hm h
    refine ⟨hn', ?_⟩
    rw [hidx', hidx, Nat.sub_sub_self hheight]

/-- So it restores a main chain of which `height` blocks were left. -/
theorem index_restored {index : List Hash} {old : List Block} {height : Nat} {n n' : Node}
    (hn : Sound env (fun _ => True) n) (hheight : height ≤ index.length)
    (hlow : ∃ rest, n.chain.mBlocksIndex = index.take height ++ rest)
    (hold : old.map (getBlockHash env) = index.drop height)
    (h : rollbackBlockchainSwitching env now old height n = .ok true n') :
    n'.chain.mBlocksIndex = index := by
  obtain ⟨rest, hrest⟩ := hlow
  have hlen : (index.take height).length = height := by
    rw [List.length_take]
    omega
  have hle : height ≤ n.chain.mBlocks.length := by
    rw [← hn.sync, hrest, List.length_append, hlen]
    omega
  obtain ⟨-, hidx⟩ := index_rolledBack hn hle h
  rw [hidx, hrest, List.take_append_of_le_length (by omega), List.take_take, Nat.min_self, hold,
    List.take_append_drop]

end

/-! ## The old blocks join the store -/

/-- The old blocks are kept as alternative blocks, one after another, without
another reorganisation. -/
inductive KeptAside (env : Env) (now : Nat) : List Block → Node → Node → Prop
  | nil {m : Node} : KeptAside env now [] m m
  | cons {b : Block} {rest : List Block} {m m₁ m' : Node}
      (kept : handleAlternativeBlock env now 0 b (getBlockHash env b) m = .ok .kept m₁)
      (tail : KeptAside env now rest m₁ m') : KeptAside env now (b :: rest) m m'

section

variable {env : Env} {now : Nat}

theorem KeptAside.pushOldChain {old : List Block} {m m' : Node} (h : KeptAside env now old m m')
    (depth : Nat) :
    pushOldChain env (handleAlternativeBlock env now depth) old m = .ok true m' := by
  induction h with
  | nil => rfl
  | cons kept _ ih =>
    unfold DarknetSpace.pushOldChain
    rw [bind_of_ok (handleAlternativeBlock_of_zero kept depth)]
    exact ih

theorem joins_of_kept {b : Block} {m m₁ : Node}
    (h : handleAlternativeBlock env now 0 b (getBlockHash env b) m = .ok .kept m₁) :
    ∃ c prev, Joins env m b c prev ∧ m₁ = joined env m b c prev := by
  unfold handleAlternativeBlock at h
  rcases alternativeBlock_cases env m b with ⟨r, ha, hr⟩ | ⟨c, prev, hj, ⟨-, hr⟩ | ⟨-, hr⟩⟩
  · rw [hr] at h
    exact absurd h (ha.not_kept m₁)
  · rw [hr] at h
    cases h
    exact ⟨c, prev, hj, rfl⟩
  · rw [hr] at h
    cases h

/-- The next old block joins at its old height. -/
theorem AsideUpTo.step {index : List Hash} {alts : Map Hash BlockEntry} {chain : AltChain}
    {split upto : Nat} {m : Node} {b : Block} {c : AltCandidate} {prev : Nat}
    (h : StoreShape env index alts) (hnodup : index.Nodup) (hsplit : 1 ≤ split)
    (hchain : ∀ p ∈ chain, alts[p.1]? = some p.2) (hupto : split ≤ upto)
    (hindex : m.chain.mBlocksIndex = index.take split ++ chain.map (·.1))
    (haside : AsideUpTo env index split upto alts m.chain.mAlternativeChains)
    (hid : index[upto]? = some (getBlockHash env b)) (hprev : index[upto - 1]? = some b.prevId)
    (hj : Joins env m b c prev) :
    AsideUpTo env index split (upto + 1) alts (joined env m b c prev).chain.mAlternativeChains := by
  -- an id stands at one place of the index, so the parent's place is known
  have hpos : ∀ k, index[k]? = some b.prevId → k = upto - 1 := by
    intro k hk
    obtain ⟨hkl, hke⟩ := List.getElem?_eq_some_iff.1 hk
    obtain ⟨hul, hue⟩ := List.getElem?_eq_some_iff.1 hprev
    exact (List.Nodup.getElem_inj_iff hnodup).1 (hke.trans hue.symm)
  have hoff : alts[b.prevId]? = none := h.disjoint _ (List.mem_of_getElem? hprev)
  have hheight : (altBlockEntry b c prev).height = upto := by
    rcases hj.hasParent with ⟨k, hk, hmain⟩ | ⟨parent, hparent, hheight⟩
    · have hmain' : (index.take split ++ chain.map (·.1))[k]? = some b.prevId := hindex ▸ hmain
      by_cases hks : k < (index.take split).length
      · have hlt : k < split := by
          rw [List.length_take] at hks
          omega
        rw [List.getElem?_append_left hks, List.getElem?_take_of_lt hlt] at hmain'
        have := hpos k hmain'
        omega
      · -- the chain's blocks are not on the old main chain
        rw [List.getElem?_append_right (by omega), List.getElem?_map] at hmain'
        obtain ⟨p, hp, hpid⟩ := Option.map_eq_some_iff.1 hmain'
        have hpe := hchain p (List.mem_of_getElem? hp)
        rw [hpid, hoff] at hpe
        cases hpe
    · have hparent' : m.chain.mAlternativeChains[b.prevId]? = some parent := hparent
      rcases haside.only _ _ hparent' with hold | ⟨k, hk, hold⟩
      · rw [hoff] at hold
        cases hold
      · have hk' := hpos k hold.at_height
        have := hold.height
        omega
  have hnew : m.chain.mAlternativeChains[getBlockHash env b]? = none :=
    getElem?_of_not_contains hj.new
  -- a new id overwrites nothing
  have lift : ∀ (id : Hash) e, m.chain.mAlternativeChains[id]? = some e →
      (joined env m b c prev).chain.mAlternativeChains[id]? = some e := by
    intro id e he
    show (m.chain.mAlternativeChains.insert _ _)[id]? = some e
    rw [Std.ExtTreeMap.getElem?_insert, if_neg, he]
    intro hc
    rw [← Std.LawfulEqCmp.eq_of_compare hc, hnew] at he
    cases he
  refine ⟨fun id e he => lift id e (haside.grew id e he), fun id e he => ?_, fun k id hk hlt hidx => ?_⟩
  · have he' : (m.chain.mAlternativeChains.insert (getBlockHash env b) (altBlockEntry b c prev))[id]?
      = some e := he
    rw [Std.ExtTreeMap.getElem?_insert] at he'
    split at he'
    · next hc =>
      cases he'
      rw [← Std.LawfulEqCmp.eq_of_compare hc]
      exact .inr ⟨upto, hupto, hid, hheight, rfl, hprev⟩
    · exact haside.only id e he'
  · by_cases hku : k = upto
    · refine ⟨altBlockEntry b c prev, ?_, by rw [hheight, hku]⟩
      rw [hku, hid] at hidx
      cases hidx
      exact Std.ExtTreeMap.getElem?_insert_self
    · obtain ⟨e, he, hek⟩ := haside.all k id hk (by omega) hidx
      exact ⟨e, lift id e he, hek⟩

/-- **All of them join**, each at its old height. -/
theorem KeptAside.asideUpTo {index : List Hash} {alts : Map Hash BlockEntry} {chain : AltChain}
    {split upto : Nat} {m m' : Node} {old : List Block} (hrun : KeptAside env now old m m')
    (h : StoreShape env index alts) (hnodup : index.Nodup) (hsplit : 1 ≤ split)
    (hchain : ∀ p ∈ chain, alts[p.1]? = some p.2) (hupto : split ≤ upto)
    (hindex : m.chain.mBlocksIndex = index.take split ++ chain.map (·.1))
    (haside : AsideUpTo env index split upto alts m.chain.mAlternativeChains)
    (hold : ∀ i b, old[i]? = some b →
      index[upto + i]? = some (getBlockHash env b) ∧ index[upto + i - 1]? = some b.prevId) :
    m'.chain.mBlocksIndex = m.chain.mBlocksIndex ∧
      AsideUpTo env index split (upto + old.length) alts m'.chain.mAlternativeChains := by
  induction hrun generalizing upto with
  | nil => exact ⟨rfl, haside⟩
  | @cons b rest m m₁ m' kept tail ih =>
    obtain ⟨c, prev, hj, rfl⟩ := joins_of_kept kept
    obtain ⟨hid, hprev⟩ := hold 0 b rfl
    have hstep := haside.step h hnodup hsplit hchain hupto hindex hid hprev hj
    obtain ⟨hidx, hlast⟩ := ih (Nat.le_succ_of_le hupto) hindex hstep fun i b' hb' => by
      have := hold (i + 1) b' hb'
      rwa [show upto + (i + 1) = upto + 1 + i by omega] at this
    refine ⟨hidx, ?_⟩
    rw [List.length_cons, show upto + (rest.length + 1) = upto + 1 + rest.length by omega]
    exact hlast

end

/-! ## Which calls keep the shape -/

def currencyAltBlockLivetimeCount : Nat := 720 * 7

/-- The entry is old enough for `prune_aged_alt_blocks`. -/
def Storage.isAged (s : Storage) (e : BlockEntry) : Bool :=
  decide (s.getCurrentBlockchainHeight > e.height) &&
    decide (s.getCurrentBlockchainHeight - e.height > currencyAltBlockLivetimeCount)

/-- `prune_aged_alt_blocks`. -/
def pruneAgedAltBlocks (s : Storage) : Storage :=
  { s with mAlternativeChains := s.mAlternativeChains.filter fun _ e => !s.isAged e }

/-- No entry that stays hangs on one that goes. -/
def AgesFromTheTop (s : Storage) : Prop :=
  ∀ (id : Hash) e parent, s.mAlternativeChains[id]? = some e → s.isAged e = false →
    s.mAlternativeChains[e.bl.prevId]? = some parent → s.isAged parent = false

/-- The old blocks `old` come off and the chain of the joining block `bl` is
connected. -/
structure Connects (env : Env) (now : Nat) (n : Node) (bl : Block) (c : AltCandidate) (prev : Nat)
    (old : List Block) (m : Node) : Prop where
  joins : Joins env n bl c prev
  overtakes : Overtakes n bl c prev
  connects : ∃ m₀, disconnectBlocks env now
      (n.chain.mBlocks.length - splitHeight (joinedChain env bl c prev)) (joined env n bl c prev) =
        .ok (some old) m₀ ∧
    reconnectBlocks env now ((joinedChain env bl c prev).map (·.2.bl)) m₀ = .ok true m

/-- What a new block has to find to leave the store in shape. Known blocks,
blocks on top of the main chain and blocks that do not overtake do; so does a
reorganisation that goes through. One that fails does when the rollback puts the
whole main chain back and the store has not changed behind it: the first old
block was refused as an alternative block, or the cleanup came to its end and
nothing else hangs on what it erased. -/
inductive KeepsShape (env : Env) (now : Nat) (n : Node) (bl : Block) : Prop where
  | known (have' : n.chain.haveBlock (getBlockHash env bl) = true)
  | onTop (top : bl.prevId = n.chain.getTopBlockId env)
  | beside (light : ∀ c prev, Joins env n bl c prev → ¬ Overtakes n bl c prev)
  | switched {c : AltCandidate} {prev : Nat} {old : List Block} {m m' : Node}
      (connects : Connects env now n bl c prev old m) (aside : KeptAside env now old m m')
  | turnedBack {c : AltCandidate} {prev : Nat} {b : Block} {rest : List Block} {v : BlockVerdict}
      {m m₁ m' : Node} (connects : Connects env now n bl c prev (b :: rest) m)
      (refused : handleAlternativeBlock env now 0 b (getBlockHash env b) m = .ok v m₁)
      (no : v.1 = false)
      (back : rollbackBlockchainSwitching env now (b :: rest)
        (splitHeight (joinedChain env bl c prev)) m₁ = .ok true m')
  | cleaned {c : AltCandidate} {prev : Nat} {pre rest : AltChain} {p : Hash × BlockEntry}
      {old : List Block} {m m' : Node} (joins : Joins env n bl c prev)
      (overtakes : Overtakes n bl c prev) (chain : joinedChain env bl c prev = pre ++ p :: rest)
      (stops : StopsAt env now (joined env n bl c prev) pre p rest old m)
      (down : TurnedDown env now m p.2.bl)
      (back : rollbackAfter env now (pre ++ p :: rest) old p.2.bl m = .ok true m')
      (single : rest.length ≤ 1)
      (alone : ∀ (id : Hash) e, (joined env n bl c prev).chain.mAlternativeChains[id]? = some e →
        (∀ q ∈ p :: rest, q.1 ≠ id) → ∀ q ∈ p :: rest, q.1 ≠ e.bl.prevId)

/-- A sound node whose store is in shape. -/
structure Shaped (env : Env) (n : Node) : Prop where
  sound : Sound env (fun _ => True) n
  line : MainLine env n.chain.mBlocks
  shape : StoreShape env n.chain.mBlocksIndex n.chain.mAlternativeChains

theorem pruned_shape {env : Env} {s : Storage} (hage : AgesFromTheTop s)
    (h : StoreShape env s.mBlocksIndex s.mAlternativeChains) :
    StoreShape env (pruneAgedAltBlocks s).mBlocksIndex (pruneAgedAltBlocks s).mAlternativeChains := by
  have hget : ∀ (id : Hash) e, (pruneAgedAltBlocks s).mAlternativeChains[id]? = some e ↔
      s.mAlternativeChains[id]? = some e ∧ s.isAged e = false := by
    intro id e
    show (s.mAlternativeChains.filter fun _ e => !s.isAged e)[id]? = some e ↔ _
    rw [Std.ExtTreeMap.getElem?_filter', Option.filter_eq_some_iff, Bool.not_eq_true']
  refine h.restrict (fun id e he => ((hget id e).1 he).1) fun id e parent he hp => ?_
  obtain ⟨he, hyoung⟩ := (hget id e).1 he
  exact (hget _ _).2 ⟨hp, hage id e parent he hyoung hp⟩

end DarknetSpace
