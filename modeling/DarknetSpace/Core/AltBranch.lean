import DarknetSpace.Core.Rebuilt
import DarknetSpace.Chain.AltJudged

/-!
# An alternative block and the chain it will be on

A block that was judged as an alternative is judged again when its chain
becomes the main one. Here the two judgements are compared: the difficulty, and
with it the weight the node compares chains by, and the scratchpad the proof of
work reads.

`branch` is the main chain up to the split with the alternative blocks behind it, and
`KeptChain` what is in the store of such a chain. The comparison is by weights, the
pairs of size and cumulative difficulty that all the windows are taken from: they do not
see flags, and the window of an alternative chain is the window of the branch.

Main results: `alternative_difficulty_eq_main` for the difficulty,
`scratchpad_pop_undoes_push_iff` for pads in reverse order, and
`alt_scratchpad_eq_switched` for the scratchpad that an alternative block is judged by,
at every index.
-/

namespace DarknetSpace

open StateExn

/-! ## Disconnecting -/

section

variable {env : Env} {G : TransactionPrefix → Prop}

theorem readChain_top {n n' : Node} {top : BlockEntry}
    (h : readChain (fun s => s.blockBefore s.mBlocks.length) n = .ok top n') :
    n.chain.mBlocks[n.chain.mBlocks.length - 1]? = some top ∧ n' = n := by
  unfold readChain reads at h
  split at h
  · next hb =>
    cases h
    exact ⟨getElem?_of_blockBefore hb, rfl⟩
  · cases h

theorem map_bl_forgetFlags (bs : List BlockEntry) :
    (forgetFlags bs).map (·.bl) = bs.map (·.bl) := List.map_map

/-- Popping from a sound node: the blocks below are left as they were. -/
theorem disconnectBlocks_some {now count : Nat} {n n' : Node} {old : List Block}
    (hn : Sound env G n) (h : disconnectBlocks env now count n = .ok (some old) n') :
    Sound env G n' ∧ count ≤ n.chain.mBlocks.length ∧
      forgetFlags n'.chain.mBlocks =
        (forgetFlags n.chain.mBlocks).take (n.chain.mBlocks.length - count) ∧
      old = (n.chain.mBlocks.drop (n.chain.mBlocks.length - count)).map (·.bl) := by
  induction count generalizing n n' old with
  | zero =>
    cases h
    refine ⟨hn, Nat.zero_le _, ?_, ?_⟩
    · rw [Nat.sub_zero, ← length_forgetFlags, List.take_length]
    · rw [Nat.sub_zero, List.drop_length, List.map_nil]
  | succ count ih =>
    unfold disconnectBlocks at h
    obtain ⟨top, n₀, htop, h⟩ := bind_eq_ok.1 h
    obtain ⟨hlast, hn₀⟩ := readChain_top htop
    subst n₀
    obtain ⟨r, n₁, hpop, h⟩ := bind_eq_ok.1 h
    cases r with
    | false => cases h
    | true =>
      rw [if_neg (by simp)] at h
      obtain ⟨bs, n₂, hrest, h⟩ := bind_eq_ok.1 h
      cases bs with
      | none => cases h
      | some bs =>
        cases h
        have hshort : Shortened env G n n₁ := by
          have := popBlock_shortenedOrQuiet hn now
          rw [hpop] at this
          exact this
        obtain ⟨e, hblocks⟩ := hshort.blocks
        have hlen : n.chain.mBlocks.length = n₁.chain.mBlocks.length + 1 := by
          have := congrArg List.length hblocks
          rwa [List.length_append, length_forgetFlags, length_forgetFlags] at this
        obtain ⟨hsound, hle, hff, hold⟩ := ih hshort.sound hrest
        have hk : n.chain.mBlocks.length - (count + 1) = n₁.chain.mBlocks.length - count := by omega
        refine ⟨hsound, by omega, ?_, ?_⟩
        · rw [hff, hblocks, hk, List.take_append_of_le_length (by rw [length_forgetFlags]; omega)]
        · -- the block read before the pop is the one that went
          have hbl : n.chain.mBlocks.map (·.bl) = n₁.chain.mBlocks.map (·.bl) ++ [top.bl] := by
            have h₁ := congrArg (List.map (·.bl)) hblocks
            rw [List.map_append, map_bl_forgetFlags, map_bl_forgetFlags] at h₁
            have h₂ := congrArg (·[n.chain.mBlocks.length - 1]?) h₁
            simp only [List.getElem?_map, hlast] at h₂
            rw [h₁]
            rw [List.getElem?_append_right (by rw [List.length_map]; omega), List.length_map,
              show n.chain.mBlocks.length - 1 - n₁.chain.mBlocks.length = 0 by omega] at h₂
            have htop : top.bl = e.bl := Option.some.inj h₂
            rw [htop]
            rfl
          rw [hold, hk, List.map_drop, List.map_drop, hbl,
            List.drop_append_of_le_length (by rw [List.length_map]; omega)]

end

/-! ## Difficulty -/

/-- What the difficulty of the next block depends on. -/
def weights (bs : List BlockEntry) : List (UInt64 × Nat) :=
  bs.map fun e => (e.bl.timestamp, e.cumulativeDifficulty)

theorem weights_forgetFlags (bs : List BlockEntry) : weights (forgetFlags bs) = weights bs :=
  List.map_map

theorem weights_congr {bs bs' : List BlockEntry} (h : forgetFlags bs = forgetFlags bs') :
    weights bs = weights bs' := by
  rw [← weights_forgetFlags, h, weights_forgetFlags]

theorem weights_append (bs bs' : List BlockEntry) : weights (bs ++ bs') = weights bs ++ weights bs' :=
  List.map_append

theorem getDifficultyForNextBlock_congr {bs bs' : List BlockEntry} (h : weights bs = weights bs') :
    Storage.getDifficultyForNextBlock bs = Storage.getDifficultyForNextBlock bs' := by
  have hlen : bs.length = bs'.length := by
    have := congrArg List.length h
    rwa [weights, weights, List.length_map, List.length_map] at this
  have hdrop : ∀ k, weights (bs.drop k) = weights (bs'.drop k) := by
    intro k
    unfold weights at h ⊢
    rw [List.map_drop, h, ← List.map_drop]
  unfold Storage.getDifficultyForNextBlock Storage.difficultyBlocks
  simp only [hlen]
  generalize (if bs'.length - min bs'.length difficultyBlocksCount = 0 then 1 else
    bs'.length - min bs'.length difficultyBlocksCount) = k
  have hts := congrArg (List.map Prod.fst) (hdrop k)
  have hcd := congrArg (List.map Prod.snd) (hdrop k)
  unfold weights at hts hcd
  rw [List.map_map, List.map_map] at hts hcd
  exact congrArg₂ nextDifficulty hts hcd

theorem cumulativeDifficulty_eq (bs : List BlockEntry) :
    cumulativeDifficulty bs = ((weights bs).getLast?.map Prod.snd).getD 0 := by
  unfold cumulativeDifficulty weights
  rw [List.getLast?_map]
  cases bs.getLast? <;> rfl

theorem cumulativeDifficulty_congr {bs bs' : List BlockEntry} (h : weights bs = weights bs') :
    cumulativeDifficulty bs = cumulativeDifficulty bs' := by
  rw [cumulativeDifficulty_eq, cumulativeDifficulty_eq, h]

/-- The weight `handle_block_to_main_chain` gives the block on top of `bs`. -/
def nextWeight (bs : List BlockEntry) : Nat :=
  (Storage.getDifficultyForNextBlock bs + cumulativeDifficulty bs) % 2 ^ 128

theorem nextWeight_congr {bs bs' : List BlockEntry} (h : weights bs = weights bs') :
    nextWeight bs = nextWeight bs' := by
  unfold nextWeight
  rw [getDifficultyForNextBlock_congr h, cumulativeDifficulty_congr h]

/-- The entry pushed on the main chain carries it. -/
theorem Connected.weights_eq {env : Env} {G : TransactionPrefix → Prop} {now : Nat} {bl : Block}
    {n n' : Node} (c : Connected env now bl (getBlockHash env bl) n n') (hn : Sound env G n) :
    weights n'.chain.mBlocks =
      weights n.chain.mBlocks ++ [(bl.timestamp, nextWeight n.chain.mBlocks)] := by
  have hblocks : n'.chain.mBlocks = c.m.chain.mBlocks ++ [c.entry] := by rw [c.chain_eq hn.sync]; rfl
  have hw : weights c.m.chain.mBlocks = weights n.chain.mBlocks := weights_congr c.forgetFlags_eq
  rw [hblocks, weights_append, hw, ← nextWeight_congr hw]
  rfl

/-- Every entry of `alt` is what `handle_alternative_block` kept for its block,
on top of the entries before it, on some chain that has the blocks of `main`
below `split`. -/
def KeptChain (env : Env) (main : List BlockEntry) (split : Nat) (alt : AltChain) : Prop :=
  (∀ id e, alt.head? = some (id, e) → e.height = split) ∧
    ∀ i id e, alt[i]? = some (id, e) → ∃ s c prev,
      forgetFlags (s.mBlocks.take split) = forgetFlags (main.take split) ∧
      altCandidate env s e.bl = .ok (.inr c) ∧ c.altChain = alt.take i ∧
      altPrevDifficulty s e.bl c.altChain = .ok prev ∧ e = altBlockEntry e.bl c prev

section

variable {env : Env} {main : List BlockEntry} {split : Nat} {alt : AltChain}

/-- The candidate an entry was kept for. -/
structure KeptAs (env : Env) (main : List BlockEntry) (split : Nat) (below : AltChain)
    (e : BlockEntry) (s : Storage) (c : AltCandidate) (prev : Nat) : Prop where
  same : forgetFlags (s.mBlocks.take split) = forgetFlags (main.take split)
  judged : AltJudged env s e.bl c split
  below_eq : c.altChain = below
  prev_eq : altPrevDifficulty s e.bl below = .ok prev
  entry : e = altBlockEntry e.bl c prev

theorem KeptChain.keptAs (h : KeptChain env main split alt) {i : Nat} {id : Hash} {e : BlockEntry}
    (he : alt[i]? = some (id, e)) : ∃ s c prev, KeptAs env main split (alt.take i) e s c prev := by
  obtain ⟨s, c, prev, hsame, hc, hbelow, hprev, hentry⟩ := h.2 i id e he
  obtain ⟨split', hj⟩ := altCandidate_judged hc
  -- the entry, or the first one below it, says where the chain splits off
  have hsplit : split' = split := by
    cases i with
    | zero =>
      have hheight := hj.height
      rw [hbelow] at hheight
      have hhead := h.1 id e (by rw [List.head?_eq_getElem?]; exact he)
      rw [hentry] at hhead
      exact hheight.symm.trans hhead
    | succ i =>
      cases alt with
      | nil => cases he
      | cons p rest =>
        have hhangs := hj.hangs
        rw [hbelow] at hhangs
        exact hhangs.1.symm.trans (h.1 p.1 p.2 rfl)
  subst hsplit
  exact ⟨s, c, prev, hsame, hj, hbelow, hbelow ▸ hprev, hentry⟩

theorem KeptChain.height (h : KeptChain env main split alt) {i : Nat} {id : Hash} {e : BlockEntry}
    (he : alt[i]? = some (id, e)) : e.height = split + i := by
  induction i generalizing id e with
  | zero => exact h.1 id e (by rw [List.head?_eq_getElem?]; exact he)
  | succ i ih =>
    obtain ⟨s, c, prev, hk⟩ := h.keptAs he
    have hlt : i < alt.length := by
      have := (List.getElem?_eq_some_iff.1 he).1
      omega
    have hi : alt[i]? = some (alt[i].1, alt[i].2) := List.getElem?_eq_getElem hlt
    have hheight := hk.judged.height
    rw [hk.below_eq, List.getLast?_map, List.getLast?_take, if_neg (by omega),
      Nat.add_sub_cancel, hi] at hheight
    have he' : e.height = c.height := by rw [hk.entry]; rfl
    rw [he', hheight]
    show alt[i].2.height + 1 = split + (i + 1)
    rw [ih hi]
    omega

theorem KeptChain.numbered (h : KeptChain env main split alt) (k : Nat) :
    NumberedFrom split ((alt.take k).map (·.2)) := by
  intro i e he
  rw [List.getElem?_map, Option.map_eq_some_iff] at he
  obtain ⟨p, hp, rfl⟩ := he
  rw [List.getElem?_take] at hp
  split at hp
  · exact h.height hp
  · cases hp

/-- The weight below the first alternative block. -/
theorem cumulativeDifficulty_take {bs : List BlockEntry} {k : Nat} {e : BlockEntry} (hk : 1 ≤ k)
    (he : bs[k - 1]? = some e) : cumulativeDifficulty (bs.take k) = e.cumulativeDifficulty := by
  unfold cumulativeDifficulty
  rw [List.getLast?_take, if_neg (by omega), he]
  rfl

theorem altPrevDifficulty_eq {s : Storage} {b : Block} {below : AltChain} {prev : Nat}
    (hs : 1 ≤ split) (hh : HangsAt env s b split below)
    (h : altPrevDifficulty s b below = .ok prev) :
    prev = cumulativeDifficulty (branch s.mBlocks split (below.map (·.2))) := by
  unfold altPrevDifficulty at h
  rcases List.eq_nil_or_concat below with rfl | ⟨init, last, rfl⟩
  · have hidx : indexHeight s.mBlocksIndex b.prevId = some (split - 1) := hh
    simp only [List.getLast?_nil, hidx] at h
    cases hb : s.blockAt (split - 1) with
    | error e => rw [hb] at h; cases h
    | ok e =>
      rw [hb] at h
      cases h
      rw [branch, List.map_nil, List.append_nil]
      exact (cumulativeDifficulty_take hs (getElem?_of_blockAt hb)).symm
  · rw [List.concat_eq_append] at h ⊢
    simp only [List.getLast?_concat] at h
    cases h
    unfold cumulativeDifficulty branch
    rw [List.map_append, ← List.append_assoc, List.map_singleton, List.getLast?_concat]
    rfl

theorem KeptChain.weight (h : KeptChain env main split alt) {i : Nat} {id : Hash} {e : BlockEntry}
    (he : alt[i]? = some (id, e)) :
    e.cumulativeDifficulty = nextWeight (branch main split ((alt.take i).map (·.2))) := by
  obtain ⟨s, c, prev, hk⟩ := h.keptAs he
  have hs := hk.judged.split_pos
  have hlen : split ≤ s.mBlocks.length := by
    obtain ⟨base, _, _, _, hbase, _⟩ := hk.judged.pad
    exact (List.getElem?_eq_some_iff.1 hbase).1.le
  have hi : ((alt.take i).map (·.2)).length = i := by
    have := (List.getElem?_eq_some_iff.1 he).1
    rw [List.length_map, List.length_take]
    omega
  have hheight : c.height = split + ((alt.take i).map (·.2)).length := by
    have hc : e.height = c.height := by rw [hk.entry]; rfl
    rw [← hc, h.height he, hi]
  have hdiff := hk.judged.difficulty
  rw [hk.below_eq, hheight, getNextDifficultyForAlternativeChain_branch hs hlen (h.numbered i)] at hdiff
  have hprev := altPrevDifficulty_eq hs (hk.below_eq ▸ hk.judged.hangs) hk.prev_eq
  -- the chain it was judged on has the same weights below the split
  have hw : weights (branch s.mBlocks split ((alt.take i).map (·.2))) =
      weights (branch main split ((alt.take i).map (·.2))) := by
    rw [branch, branch, weights_append, weights_append, weights_congr hk.same]
  have hcd : e.cumulativeDifficulty = (prev + c.difficulty) % 2 ^ 128 := by rw [hk.entry]; rfl
  rw [hcd, hprev, ← Except.ok.inj hdiff, ← nextWeight_congr hw, nextWeight, Nat.add_comm]

end

/-- `handle_block_to_main_chain` returns `true` for an added block only. -/
theorem handleBlockToMainChain_returns (env : Env) (now : Nat) (bl : Block) (id : Hash) :
    Returns (fun v => v = BlockVerdict.added ∨ v.1 = false)
      (handleBlockToMainChain env now bl id) := by
  have hfinish : ∀ coinbase taken, Returns (fun v => v = BlockVerdict.added ∨ v.1 = false)
      (finishBlock env now bl id coinbase taken) := by
    intro coinbase taken
    refine .bind fun r => ?_
    cases r with
    | none => exact .bind fun _ => .pure (.inr rfl)
    | some r =>
      exact .bind fun n => .ite (.bind fun _ => .pure (.inr rfl)) (.bind fun _ => .pure (.inl rfl))
  refine .bind fun n => ?_
  cases hh : checkBlockHeader env now n.chain bl with
  | some v =>
    refine .pure (.inr ?_)
    unfold checkBlockHeader at hh
    repeat' split at hh
    all_goals cases hh
    all_goals rfl
  | none =>
    refine .bind fun _ => .bind fun n => .ite (.bind fun n => .bind fun coinbase => ?_)
      (.pure (.inr rfl))
    cases coinbase with
    | none => exact .pure (.inr rfl)
    | some coinbase =>
      refine .bind fun taken => ?_
      cases taken with
      | none => exact .pure (.inr rfl)
      | some taken => exact hfinish coinbase taken

theorem eq_added_of_accepted {env : Env} {now : Nat} {bl : Block} {id : Hash} {n n' : Node}
    {v : BlockVerdict} (h : handleBlockToMainChain env now bl id n = .ok v n')
    (hv : (v.1 && v.2.mAddedToMainChain) = true) : v = .added := by
  rcases handleBlockToMainChain_returns env now bl id n v n' h with hadded | hfalse
  · exact hadded
  · rw [hfalse] at hv
    cases hv

section

variable {env : Env} {main : List BlockEntry} {split : Nat} {alt : AltChain}

/-- Connecting a kept chain gives every block the weight it was kept with. -/
theorem connectAltChain_weights {G : TransactionPrefix → Prop} {now height : Nat} {old : List Block}
    (hk : KeptChain env main split alt) {i : Nat} {rest : AltChain} (hrest : alt.drop i = rest)
    {n n' : Node} (hn : Sound env G n)
    (hw : weights n.chain.mBlocks = weights (branch main split ((alt.take i).map (·.2))))
    (h : connectAltChain env now old height rest n = .ok true n') :
    weights n'.chain.mBlocks = weights (branch main split (alt.map (·.2))) := by
  induction rest generalizing i n with
  | nil =>
    cases h
    rw [hw, List.take_of_length_le (List.drop_eq_nil_iff.1 hrest)]
  | cons p rest ih =>
    obtain ⟨id, e⟩ := p
    have he : alt[i]? = some (id, e) := by
      rw [← List.head?_drop, hrest]
      rfl
    have htake : alt.take (i + 1) = alt.take i ++ [(id, e)] := by
      rw [List.take_add_one, he]
      rfl
    unfold connectAltChain at h
    obtain ⟨v, n₁, hpush, h⟩ := bind_eq_ok.1 h
    split at h
    · next hadded =>
      rw [eq_added_of_accepted hpush hadded] at hpush
      obtain ⟨con⟩ := handleBlockToMainChain_added hpush
      refine ih (i := i + 1) ?_ (con.sound hn) ?_ h
      · rw [← List.drop_drop, hrest]
        rfl
      · rw [con.weights_eq hn, hw, nextWeight_congr hw, htake, List.map_append, List.map_singleton,
          branch, branch, ← List.append_assoc, weights_append _ [e]]
        show _ = _ ++ [(e.bl.timestamp, e.cumulativeDifficulty)]
        rw [hk.weight he]
        rfl
    · obtain ⟨_, _, _, h⟩ := bind_eq_ok.1 h
      obtain ⟨_, _, _, h⟩ := bind_eq_ok.1 h
      obtain ⟨_, _, _, h⟩ := bind_eq_ok.1 h
      obtain ⟨_, _, _, h⟩ := bind_eq_ok.1 h
      cases h

end

/-- **Difficulty.** The window of an alternative chain is the window of the
chain it would make, so a block keeps its weight when that chain becomes the
main one. -/
theorem alternative_difficulty_eq_main (env : Env) :
    (∀ main alt split, 1 ≤ split → split ≤ main.length → NumberedFrom split alt →
      getNextDifficultyForAlternativeChain main alt (split + alt.length) =
        .ok (Storage.getDifficultyForNextBlock (branch main split alt))) ∧
    ∀ now n n₁ n₂ old split alt, Reachable env n → KeptChain env n.chain.mBlocks split alt →
      disconnectBlocks env now (n.chain.mBlocks.length - split) n = .ok (some old) n₁ →
      connectAltChain env now old split alt n₁ = .ok true n₂ →
      n₂.chain.mBlocks.map (·.cumulativeDifficulty) =
        (branch n.chain.mBlocks split (alt.map (·.2))).map (·.cumulativeDifficulty) := by
  refine ⟨fun _ _ _ hs hm hn => getNextDifficultyForAlternativeChain_branch hs hm hn, ?_⟩
  intro now n n₁ n₂ old split alt hn hk hdis hcon
  obtain ⟨hn₁, _, hff, _⟩ := disconnectBlocks_some (hn.sound (guaranteed_true env)).1 hdis
  have hkept : forgetFlags n₁.chain.mBlocks = forgetFlags (n.chain.mBlocks.take split) := by
    rw [hff, forgetFlags, forgetFlags, List.map_take]
    by_cases hle : split ≤ n.chain.mBlocks.length
    · rw [Nat.sub_sub_self hle]
    · rw [List.take_of_length_le (by rw [List.length_map]; omega),
        List.take_of_length_le (by rw [List.length_map]; omega)]
  have hw : weights n₁.chain.mBlocks =
      weights (branch n.chain.mBlocks split ((alt.take 0).map (·.2))) := by
    rw [weights_congr hkept, List.take_zero, List.map_nil, branch, List.append_nil]
  have hweights := connectAltChain_weights hk (List.drop_zero) hn₁ hw hcon
  have := congrArg (List.map Prod.snd) hweights
  unfold weights at this
  rwa [List.map_map, List.map_map] at this

/-- The entry kept for a block right above the main chain. -/
def keptOnMain (env : Env) (s : Storage) (b : Block) : Option BlockEntry :=
  match altCandidate env s b with
  | .ok (.inr c) =>
    match altPrevDifficulty s b c.altChain with
    | .ok prev => if c.altChain = [] then some (altBlockEntry b c prev) else none
    | .error _ => none
  | _ => none

theorem keptChain_of_keptOnMain {env : Env} {s : Storage} {b : Block} {id : Hash} {e : BlockEntry}
    (h : keptOnMain env s b = some e) : KeptChain env s.mBlocks e.height [(id, e)] := by
  constructor
  · intro id' e' he
    cases he
    rfl
  · intro i id' e' he
    cases i with
    | succ i => cases he
    | zero =>
      cases he
      unfold keptOnMain at h
      split at h
      · next c hc =>
        split at h
        · next prev hp =>
          split at h
          · next hnil =>
            cases h
            exact ⟨s, c, prev, rfl, hc, hnil, hp, rfl⟩
          · cases h
        · cases h
      · cases h

/-- A chain of one block that takes the place of another. -/
theorem alternative_difficulty_eq_main_devnet :
    ∃ n n₁ n₂ e, Reachable Devnet.env n ∧
      KeptChain Devnet.env n.chain.mBlocks 1 [(101 + 1, e)] ∧
      disconnectBlocks Devnet.env Devnet.now (n.chain.mBlocks.length - 1) n =
        .ok (some [Devnet.mainBlock 1]) n₁ ∧
      connectAltChain Devnet.env Devnet.now [Devnet.mainBlock 1] 1 [(101 + 1, e)] n₁ =
        .ok true n₂ ∧
      n₂.chain.mBlocks.map (·.cumulativeDifficulty) =
        (branch n.chain.mBlocks 1 [e]).map (·.cumulativeDifficulty) := by
  have eval : (Devnet.run ∅ Devnet.oneBlock).isSome = true ∧
      returned (disconnectBlocks Devnet.env Devnet.now
        ((Devnet.node ∅ Devnet.oneBlock).chain.mBlocks.length - 1) (Devnet.node ∅ Devnet.oneBlock)) =
          some (some [Devnet.mainBlock 1]) ∧
      ∃ e ∈ keptOnMain Devnet.env (Devnet.node ∅ Devnet.oneBlock).chain (Devnet.altBlock 1 0),
        e.height = 1 ∧
        returned (connectAltChain Devnet.env Devnet.now [Devnet.mainBlock 1] 1 [(101 + 1, e)]
          (stateOf (disconnectBlocks Devnet.env Devnet.now
            ((Devnet.node ∅ Devnet.oneBlock).chain.mBlocks.length - 1)
            (Devnet.node ∅ Devnet.oneBlock)))) = some true := by
    decide +kernel
  obtain ⟨hrun, hdis, e, he, hheight, hcon⟩ := eval
  have hn := Devnet.reachable_node ∅ _ hrun
  generalize Devnet.node ∅ Devnet.oneBlock = n at hn hdis he hcon
  have hk : KeptChain Devnet.env n.chain.mBlocks 1 [(101 + 1, e)] :=
    hheight ▸ keptChain_of_keptOnMain (Option.mem_def.1 he)
  exact ⟨n, _, _, e, hn, hk, eq_returned hdis, eq_returned hcon,
    (alternative_difficulty_eq_main Devnet.env).2 _ _ _ _ _ _ _ hn hk (eq_returned hdis)
      (eq_returned hcon)⟩

/-! ## The scratchpad -/

/-- Popping in reverse order undoes the pushes, each pop returning `true`,
exactly when every block has a complete addendum. -/
theorem scratchpad_pop_undoes_push_iff {env : Env} {bs : List Block} {pad pad' : List Hash}
    (h : pushBlocksScratchpadData env bs pad = .ok pad') :
    popBlocksScratchpadData env bs.reverse pad' = .ok (true, pad) ↔
      ∀ b ∈ bs, AddendumComplete env b := by
  rcases popBlocksScratchpadData_push h with ⟨hall, hpop⟩ | ⟨hnot, stuck, hpop⟩
  · exact ⟨fun _ => hall, fun _ => hpop⟩
  · constructor
    · intro htrue
      cases hpop.symm.trans htrue
    · intro hall
      exact absurd hall hnot

/-- The pushes returned, as a check. -/
def pushed : Except Exn (List Hash) → Option (List Hash)
  | .ok pad => some pad
  | .error _ => none

theorem eq_pushed {r : Except Exn (List Hash)} {pad : List Hash} (h : pushed r = some pad) :
    r = .ok pad := by
  cases r with
  | ok pad' =>
    cases h
    rfl
  | error e => cases h

theorem scratchpad_pop_undoes_push_iff_devnet :
    ∃ pad, pushBlocksScratchpadData Devnet.env [Devnet.genesis, Devnet.mainBlock 1] [] = .ok pad ∧
      (popBlocksScratchpadData Devnet.env [Devnet.genesis, Devnet.mainBlock 1].reverse pad =
          .ok (true, []) ↔
        ∀ b ∈ [Devnet.genesis, Devnet.mainBlock 1], AddendumComplete Devnet.env b) := by
  have eval : (pushed (pushBlocksScratchpadData Devnet.env
      [Devnet.genesis, Devnet.mainBlock 1] [])).isSome = true := by decide +kernel
  obtain ⟨pad, hpad⟩ := Option.isSome_iff_exists.1 eval
  exact ⟨pad, eq_pushed hpad, scratchpad_pop_undoes_push_iff (eq_pushed hpad)⟩

/-- A block on the genesis block, its coinbase paying to a script. -/
def Devnet.scriptBlock : Block :=
  { mainBlock 1 with minerTx := { coinbase 1 1 0 [] with
    vout := [⟨reward (emitted 1), .toScripthash 0⟩] } }

/-- A coinbase output of another kind: the push returns `true`, the pop does not. -/
theorem scratchpad_pop_refuses_pushed_block :
    ∃ pad, pushBlockScratchpadData Devnet.env Devnet.scriptBlock [0, 1, 2] = .ok pad ∧
      ∀ pad', popBlockScratchpadData Devnet.env Devnet.scriptBlock pad ≠ .ok (true, pad') := by
  have eval : (pushed (pushBlockScratchpadData Devnet.env Devnet.scriptBlock
      [0, 1, 2])).isSome = true := by
    decide +kernel
  obtain ⟨pad, hpad⟩ := Option.isSome_iff_exists.1 eval
  refine ⟨pad, eq_pushed hpad, fun pad' hpop => ?_⟩
  rcases popBlockScratchpadData_eq (eq_pushed hpad) with ⟨hc, _⟩ | ⟨_, hfalse⟩
  · obtain ⟨key, mixAttr, hkey⟩ := hc.2 _ (List.mem_singleton.2 rfl)
    cases hkey
  · cases hfalse.symm.trans hpop

/-- A push adds its block to the scratchpad where the entry says. -/
theorem Connected.padPushed {env : Env} {G : TransactionPrefix → Prop} {now : Nat} {bl : Block}
    {id : Hash} {n n' : Node} (c : Connected env now bl id n n') (hn : Sound env G n)
    (h : PadPushed env [] n.chain.mBlocks n.chain.mScratchpad) :
    PadPushed env [] n'.chain.mBlocks n'.chain.mScratchpad := by
  have hpad : c.m.chain.mScratchpad = n.chain.mScratchpad := by
    have := congrArg Storage.mScratchpad c.frame
    exact this
  have hpush : pushBlockScratchpadData env c.entry.bl n.chain.mScratchpad = .ok c.pad :=
    hpad ▸ c.scratchpad
  have hoff : c.entry.scratchOffset = n.chain.mScratchpad.length := congrArg List.length hpad
  have hpad' : n'.chain.mScratchpad = c.pad := by rw [c.chain_eq hn.sync]; rfl
  rw [hpad']
  exact (h.append (.cons hoff hpush .nil)).congr (c.blocks_eq hn)

/-- The scratchpad and the offsets of a chain grown by pushes are those of its
pushes. -/
theorem PushesTo.padPushed {env : Env} {n n' : Node} (h : PushesTo env n n')
    (hn : Sound env (fun _ => True) n) (hp : PadPushed env [] n.chain.mBlocks n.chain.mScratchpad) :
    PadPushed env [] n'.chain.mBlocks n'.chain.mScratchpad := by
  induction h with
  | refl => exact hp
  | incomingTx h ends ih =>
    rw [(ends.poolOnly (h.sound hn)).1]
    exact ih
  | push h added ih =>
    obtain ⟨c⟩ := handleBlockToMainChain_added added
    exact c.padPushed (h.sound hn) ih

/-- The offsets the alternative entries were kept with: the scratchpad length at
the split and the addenda of the entries below. -/
def KeptOffsets (env : Env) (base : BlockEntry) (alt : List BlockEntry) : Prop :=
  ∀ i e, alt[i]? = some e → ∃ own patch,
    altScratchpad env (alt.take i) [] ∅ = .ok (own, patch) ∧
      e.scratchOffset = base.scratchOffset + own.length

/-- **The scratchpad of an alternative block.** Over a main chain whose
scratchpad and offsets are those of its pushes, the accessor of
`handle_alternative_block` reads the scratchpad made by popping the main blocks
down to the split and pushing the alternative ones. -/
theorem alt_scratchpad_eq_switched {env : Env} {main alt : List BlockEntry} {pad : List Hash}
    {split : Nat} {base : BlockEntry} (hpad : PadPushed env [] main pad) (hs : 1 ≤ split)
    (hbase : main[split]? = some base) (hmc : AllComplete env main) (hac : AllComplete env alt)
    (hoff : KeptOffsets env base alt) :
    ∃ low switched own patch mainPatch,
      popBlocksScratchpadData env ((main.drop split).map (·.bl)).reverse pad = .ok (true, low) ∧
      pushBlocksScratchpadData env (alt.map (·.bl)) low = .ok switched ∧
      altScratchpad env alt [] ∅ = .ok (own, patch) ∧
      mainLinePatches env (main.drop split) ∅ = .ok (some mainPatch) ∧
      base.scratchOffset + own.length = switched.length ∧
      ∀ i, altScratchpadAt pad own (mergePatches base.scratchOffset mainPatch patch)
          base.scratchOffset (base.scratchOffset + own.length) i =
        (switched[i % switched.length]?).getD nullHash := by
  have hlt := (List.getElem?_eq_some_iff.1 hbase).1
  -- the scratchpad at the split
  rw [← List.take_append_drop split main] at hpad
  obtain ⟨low, hlow, hhigh⟩ := hpad.append_inv
  have hdrop : main.drop split = base :: main.drop (split + 1) := by
    rw [List.drop_eq_getElem_cons hlt, (List.getElem?_eq_some_iff.1 hbase).2]
  have hbaseOff : base.scratchOffset = low.length := by
    rw [hdrop] at hhigh
    cases hhigh with
    | cons hoff _ _ => exact hoff
  have hhc : AllComplete env (main.drop split) := fun e he => hmc e (List.mem_of_mem_drop he)
  have hlc : AllComplete env (main.take split) := fun e he => hmc e (List.mem_of_mem_take he)
  -- the alternative entries can be pushed on it
  have hown : ∀ i e, alt[i]? = some e →
      e.scratchOffset = low.length + (lineAddenda env (alt.take i)).length := by
    intro i e he
    obtain ⟨own, patch, halt, hoffset⟩ := hoff i e he
    rw [altScratchpad_eq (fun e' he' => hac e' (List.mem_of_mem_take he')) [] ∅] at halt
    cases halt
    rw [hoffset, hbaseOff, List.nil_append]
  obtain ⟨switched, hsw⟩ := exists_padPushed hac hown
  have hlen := hsw.length hac
  have hlowNe : low ≠ [] := by
    cases main with
    | nil => cases hbase
    | cons g rest =>
      have hg := (hmc g List.mem_cons_self).addendumOf_ne_nil
      have hlowLen := hlow.length hlc
      rw [show split = split - 1 + 1 by omega, List.take_succ_cons, lineAddenda, List.flatMap_cons,
        List.length_append] at hlowLen
      intro h
      rw [h, List.length_nil] at hlowLen
      exact hg (List.length_eq_zero_iff.1 (by omega))
  have hne : switched ≠ [] := by
    intro h
    rw [h, List.length_nil] at hlen
    exact hlowNe (List.length_eq_zero_iff.1 (by omega))
  refine ⟨low, switched, lineAddenda env alt, linePatch env alt ∅, linePatch env (main.drop split) ∅,
    ?_, hsw.push, ?_, mainLinePatches_eq hhc ∅, ?_, ?_⟩
  · refine popBlocksScratchpadData_of_complete hhigh.push fun b hb => ?_
    obtain ⟨e, he, rfl⟩ := List.mem_map.1 hb
    exact hhc e he
  · rw [altScratchpad_eq hac, List.nil_append]
  · rw [hbaseOff, hlen]
  · intro i
    rw [hbaseOff, ← hlen]
    exact altScratchpadAt_eq hhigh hhc hsw hac hne i

/-- One main block above the genesis block, one alternative block beside it. -/
theorem alt_scratchpad_eq_switched_devnet :
    ∃ n base e low switched own patch mainPatch,
      PushesTo Devnet.env (Node.initial ∅) n ∧ n.chain.mBlocks[1]? = some base ∧
      keptOnMain Devnet.env n.chain (Devnet.altBlock 1 0) = some e ∧
      popBlocksScratchpadData Devnet.env ((n.chain.mBlocks.drop 1).map (·.bl)).reverse
        n.chain.mScratchpad = .ok (true, low) ∧
      pushBlocksScratchpadData Devnet.env ([e].map (·.bl)) low = .ok switched ∧
      altScratchpad Devnet.env [e] [] ∅ = .ok (own, patch) ∧
      mainLinePatches Devnet.env (n.chain.mBlocks.drop 1) ∅ = .ok (some mainPatch) ∧
      base.scratchOffset + own.length = switched.length ∧
      ∀ i, altScratchpadAt n.chain.mScratchpad own
          (mergePatches base.scratchOffset mainPatch patch) base.scratchOffset
          (base.scratchOffset + own.length) i =
        (switched[i % switched.length]?).getD nullHash := by
  have eval :
      isAdded (handleBlockToMainChain Devnet.env Devnet.now Devnet.genesis
        (getBlockHash Devnet.env Devnet.genesis) (Node.initial ∅)) = true ∧
      isAdded (handleBlockToMainChain Devnet.env Devnet.now (Devnet.mainBlock 1)
        (getBlockHash Devnet.env (Devnet.mainBlock 1)) (stateOf (handleBlockToMainChain Devnet.env
          Devnet.now Devnet.genesis (getBlockHash Devnet.env Devnet.genesis)
          (Node.initial ∅)))) = true ∧
      ∃ base ∈ (stateOf (handleBlockToMainChain Devnet.env Devnet.now (Devnet.mainBlock 1)
          (getBlockHash Devnet.env (Devnet.mainBlock 1)) (stateOf (handleBlockToMainChain Devnet.env
            Devnet.now Devnet.genesis (getBlockHash Devnet.env Devnet.genesis)
            (Node.initial ∅))))).chain.mBlocks[1]?,
        ∃ e ∈ keptOnMain Devnet.env (stateOf (handleBlockToMainChain Devnet.env Devnet.now
            (Devnet.mainBlock 1) (getBlockHash Devnet.env (Devnet.mainBlock 1))
            (stateOf (handleBlockToMainChain Devnet.env Devnet.now Devnet.genesis
              (getBlockHash Devnet.env Devnet.genesis) (Node.initial ∅))))).chain
            (Devnet.altBlock 1 0),
          AllComplete Devnet.env (stateOf (handleBlockToMainChain Devnet.env Devnet.now
            (Devnet.mainBlock 1) (getBlockHash Devnet.env (Devnet.mainBlock 1))
            (stateOf (handleBlockToMainChain Devnet.env Devnet.now Devnet.genesis
              (getBlockHash Devnet.env Devnet.genesis) (Node.initial ∅))))).chain.mBlocks ∧
          AllComplete Devnet.env [e] ∧ e.scratchOffset = base.scratchOffset := by
    decide +kernel
  obtain ⟨h₀, h₁, base, hbase, e, he, hmc, hac, hoff⟩ := eval
  have hpush := ((PushesTo.refl (n := Node.initial ∅)).push (eq_added h₀)).push (eq_added h₁)
  generalize stateOf (handleBlockToMainChain Devnet.env Devnet.now (Devnet.mainBlock 1) _ _) = n
    at hbase he hmc hpush
  have hpad := hpush.padPushed (Sound.initial Devnet.env _ ∅) .nil
  have hkept : KeptOffsets Devnet.env base [e] := by
    intro i e' hi
    cases i with
    | zero =>
      cases hi
      exact ⟨[], ∅, rfl, hoff⟩
    | succ i => cases hi
  obtain ⟨low, switched, own, patch, mainPatch, hall⟩ := alt_scratchpad_eq_switched hpad
    (Nat.le_refl 1) (Option.mem_def.1 hbase) hmc hac hkept
  exact ⟨n, base, e, low, switched, own, patch, mainPatch, hpush, Option.mem_def.1 hbase,
    Option.mem_def.1 he, hall⟩

end DarknetSpace
