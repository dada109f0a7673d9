import DarknetSpace.Chain.AltJudged
import DarknetSpace.Chain.Beside
import DarknetSpace.Core.Rebuilt
import DarknetSpace.Core.Links

/-!
# Reorganisations above a fixed height

A reorganisation pushes only blocks it knows: entries of `m_alternative_chains`,
blocks it has just popped, the new block. So a property `K` of blocks that holds
of every block the node knows above height `f` holds of all it pushes; and if
no such block hangs on the main chain below `f`, nothing below `f` is ever
popped, however reorganisations nest and wherever they fail.

A fence is a height `f` and a property `K`. It is kept by pushing a block with `K`, by
popping down to `f` and no further, and by moving blocks between the chain and the
store. A switch is followed down from its first pop: the nested calls that hand old
blocks back may switch themselves, so the induction is on the depth of these. Main
result: `keeps_handleAlternativeBlock`; checkpoints and the checkpoint zone (`Zone`) are
its uses.
-/

namespace DarknetSpace

open StateExn

/-- Every block known above height `f` satisfies `K`, and the ids below are in
`low`. -/
structure Fenced (env : Env) (f : Nat) (low : List Hash) (K : Block → Prop) (n : Node) : Prop where
  sound : Sound env (fun _ => True) n
  floor : f ≤ n.chain.mBlocks.length
  low : ∀ (i : Nat) id, n.chain.mBlocksIndex[i]? = some id → i + 1 < f → id ∈ low
  main : ∀ (i : Nat) e, n.chain.mBlocks[i]? = some e → f ≤ i → K e.bl
  alts : ∀ (id : Hash) e, n.chain.mAlternativeChains[id]? = some e → f ≤ e.height ∧ K e.bl

/-- What has to be known of a property for it to survive every reorganisation
above `f`. -/
structure FenceInvariant (env : Env) (f : Nat) (low : List Hash) (K : Block → Prop)
    (P : Node → Prop) : Prop where
  hangs : ∀ b, K b → b.prevId ∉ low
  push : ∀ now bl n, K bl → Fenced env f low K n → P n →
    P (stateOf (handleBlockToMainChain env now bl (getBlockHash env bl) n))
  pop : ∀ now n, f < n.chain.mBlocks.length → Fenced env f low K n → P n →
    P (stateOf (popBlockFromBlockchain env now n))
  zone : ∀ n height, f ≤ height → P n → P { n with chain := n.chain.setCheckpointZone height }
  side : ∀ n alts invalid, P n → P (n.withSide alts invalid n.chain.mIsInCheckpointZone)

/-! ## Pushes and pops -/

section

variable {env : Env} {f : Nat} {low : List Hash} {K : Block → Prop} {n n' : Node}

/-- A call that neither pushes nor pops. -/
theorem Fenced.of_quiet (h : Fenced env f low K n) (hq : Quiet env (fun _ => True) n n')
    (halts : n'.chain.mAlternativeChains = n.chain.mAlternativeChains) : Fenced env f low K n' := by
  refine ⟨h.sound.of_quiet hq, ?_, ?_, ?_, ?_⟩
  · rw [length_eq_of_forgetFlags hq.chain.blocks]
    exact h.floor
  · rw [hq.chain.index]
    exact h.low
  · intro i e he hi
    obtain ⟨e₀, he₀, hbl⟩ := bl_of_forgetFlags hq.chain.blocks he
    rw [← hbl]
    exact h.main i e₀ he₀ hi
  · rw [halts]
    exact h.alts

theorem Fenced.of_connected {now : Nat} {bl : Block} (h : Fenced env f low K n)
    (c : Connected env now bl (getBlockHash env bl) n n') (hK : K bl)
    (halts : n'.chain.mAlternativeChains = n.chain.mAlternativeChains) : Fenced env f low K n' := by
  have hblocks := c.blocks_eq h.sound
  have hlen := length_eq_of_forgetFlags hblocks
  rw [List.length_append, List.length_singleton] at hlen
  have hfloor := h.floor
  refine ⟨c.sound h.sound, by omega, ?_, ?_, ?_⟩
  · intro i id hid hi
    have hindex : n'.chain.mBlocksIndex = n.chain.mBlocksIndex ++ [getBlockHash env bl] := by
      rw [c.chain_eq h.sound.sync]
      rfl
    rw [hindex, List.getElem?_append_left (by rw [h.sound.sync]; omega)] at hid
    exact h.low i id hid hi
  · intro i e he hi
    obtain ⟨e₀, he₀, hbl⟩ := bl_of_forgetFlags hblocks he
    rw [← hbl]
    rw [List.getElem?_append] at he₀
    split at he₀
    · exact h.main i e₀ he₀ hi
    · rw [List.mem_singleton.1 (List.mem_of_getElem? he₀)]
      exact hK
  · rw [halts]
    exact h.alts

theorem Fenced.of_shortened (h : Fenced env f low K n) (hs : Shortened env (fun _ => True) n n')
    (hpos : f < n.chain.mBlocks.length)
    (halts : n'.chain.mAlternativeChains = n.chain.mAlternativeChains) : Fenced env f low K n' := by
  obtain ⟨e₁, hblocks⟩ := hs.blocks
  have hlen : n.chain.mBlocks.length = n'.chain.mBlocks.length + 1 := by
    rw [← length_forgetFlags, hblocks, List.length_append, List.length_singleton, length_forgetFlags]
  have hids : blockIds env n.chain.mBlocks = blockIds env n'.chain.mBlocks ++
      [getBlockHash env e₁.bl] := by
    have := congrArg (List.map fun e : BlockEntry => getBlockHash env e.bl) hblocks
    rw [List.map_append, forgetFlags, forgetFlags, List.map_map, List.map_map] at this
    exact this
  refine ⟨hs.sound, by omega, ?_, ?_, ?_⟩
  · intro i id hid hi
    refine h.low i id ?_ hi
    rw [hs.sound.index] at hid
    rw [h.sound.index, hids, List.getElem?_append_left (List.getElem?_eq_some_iff.1 hid).1]
    exact hid
  · intro i e he hi
    have he' : (forgetFlags n.chain.mBlocks)[i]? = some e.forgetFlags := by
      have hi' : (forgetFlags n'.chain.mBlocks)[i]? = some e.forgetFlags := by
        rw [forgetFlags, List.getElem?_map, he]
        rfl
      rw [hblocks, List.getElem?_append_left (List.getElem?_eq_some_iff.1 hi').1]
      exact hi'
    rw [forgetFlags, List.getElem?_map] at he'
    obtain ⟨e₀, he₀, heq⟩ := Option.map_eq_some_iff.1 he'
    have hbl : e₀.bl = e.bl := by
      have := congrArg BlockEntry.bl heq
      exact this
    rw [← hbl]
    exact h.main i e₀ he₀ hi
  · rw [halts]
    exact h.alts

/-- A pop keeps the fence while there is a block above it to pop. -/
theorem Fenced.pop (h : Fenced env f low K n) (now : Nat)
    (hpos : ∀ n', Shortened env (fun _ => True) n n' → f < n.chain.mBlocks.length) :
    Fenced env f low K (stateOf (popBlockFromBlockchain env now n)) := by
  have ho := popBlock_shortenedOrQuiet h.sound now
  have halts : (stateOf (popBlockFromBlockchain env now n)).chain.mAlternativeChains =
      n.chain.mAlternativeChains := by
    have := congrArg Storage.mAlternativeChains (keeps_side_popBlock env now n.chain.side n rfl)
    exact this
  cases hr : popBlockFromBlockchain env now n with
  | ok r n' =>
    rw [hr] at ho halts
    cases r with
    | true => exact h.of_shortened ho (hpos n' ho) halts
    | false => exact h.of_quiet ho halts
  | error e n' =>
    rw [hr] at ho halts
    exact h.of_quiet ho halts

end

namespace FenceInvariant

variable {env : Env} {f : Nat} {low : List Hash} {K : Block → Prop} {P : Node → Prop}

/-- The fence and the property. -/
def Holds (env : Env) (f : Nat) (low : List Hash) (K : Block → Prop) (P : Node → Prop) (n : Node) :
    Prop :=
  Fenced env f low K n ∧ P n

theorem keeps_pushOldChain {pushOld : Block → Hash → NodeM BlockVerdict}
    (hpush : ∀ b, K b → Keeps (Holds env f low K P) (pushOld b (getBlockHash env b)))
    {bs : List Block} (hbs : ∀ b ∈ bs, K b) :
    Keeps (Holds env f low K P) (pushOldChain env pushOld bs) := by
  induction bs with
  | nil => exact Keeps.pure true
  | cons b rest ih =>
    obtain ⟨hb, hrest⟩ := List.forall_mem_cons.1 hbs
    exact Keeps.bind (hpush b hb) fun v => Keeps.ite (ih hrest) (Keeps.pure false)

section

variable (h : FenceInvariant env f low K P)

include h

theorem keeps_push (now : Nat) {bl : Block} (hK : K bl) :
    Keeps (Holds env f low K P) (handleBlockToMainChain env now bl (getBlockHash env bl)) := by
  intro n hn
  refine ⟨?_, h.push now bl n hK hn.1 hn.2⟩
  have ho := handleBlockToMainChain_addedOrQuiet hn.1.sound now bl (getBlockHash env bl)
  have halts : (stateOf (handleBlockToMainChain env now bl (getBlockHash env bl) n)).chain.mAlternativeChains
      = n.chain.mAlternativeChains := by
    rcases handleBlockToMainChain_sameBeside env now bl (getBlockHash env bl) hn.1.sound.sync with hs | hs
    · exact hs.alts
    · exact hs.alts
  cases hr : handleBlockToMainChain env now bl (getBlockHash env bl) n with
  | ok v n' =>
    rw [hr] at ho halts
    rcases ho with rfl | hq
    · obtain ⟨c⟩ := handleBlockToMainChain_added hr
      exact hn.1.of_connected c hK halts
    · exact hn.1.of_quiet hq halts
  | error e n' =>
    rw [hr] at ho halts
    exact hn.1.of_quiet ho halts

theorem holds_pop (now : Nat) {n : Node} (hn : Holds env f low K P n)
    (hpos : f < n.chain.mBlocks.length) :
    Holds env f low K P (stateOf (popBlockFromBlockchain env now n)) :=
  ⟨hn.1.pop now fun _ _ => hpos, h.pop now n hpos hn.1 hn.2⟩

/-- Other side chains: what is not new was there before. -/
theorem holds_side {n : Node} (hn : Holds env f low K P n) (alts invalid : Map Hash BlockEntry)
    (halts : ∀ (id : Hash) e, alts[id]? = some e → f ≤ e.height ∧ K e.bl) :
    Holds env f low K P (n.withSide alts invalid n.chain.mIsInCheckpointZone) :=
  ⟨⟨⟨hn.1.sound.index, hn.1.sound.outputs, hn.1.sound.txs, hn.1.sound.pool⟩, hn.1.floor, hn.1.low,
    hn.1.main, halts⟩, h.side n alts invalid hn.2⟩

theorem keeps_addBlockAsInvalid (id : Hash) (e : BlockEntry) :
    Keeps (Holds env f low K P) (onChain (modify (addBlockAsInvalid id e))) :=
  fun n hn => h.holds_side hn n.chain.mAlternativeChains _ hn.1.alts

theorem keeps_eraseAlt (id : Hash) :
    Keeps (Holds env f low K P) (onChain (modify fun s =>
      { s with mAlternativeChains := s.mAlternativeChains.erase id })) := by
  intro n hn
  refine h.holds_side hn _ n.chain.mInvalidBlocks fun id' e he => ?_
  rw [Std.ExtTreeMap.getElem?_erase] at he
  split at he
  · cases he
  · exact hn.1.alts id' e he

theorem keeps_eraseAltChain (chain : AltChain) :
    Keeps (Holds env f low K P) (onChain (modify (eraseAltChain chain))) := by
  intro n hn
  refine h.holds_side hn _ n.chain.mInvalidBlocks ?_
  have hall : ∀ alts : Map Hash BlockEntry,
      (∀ (id : Hash) e, alts[id]? = some e → f ≤ e.height ∧ K e.bl) →
      ∀ (id : Hash) e, (chain.foldl (fun m p => m.erase p.1) alts)[id]? = some e →
        f ≤ e.height ∧ K e.bl := by
    induction chain with
    | nil => exact fun alts halts => halts
    | cons p rest ih =>
      intro alts halts
      refine ih (alts.erase p.1) fun id e he => ?_
      rw [Std.ExtTreeMap.getElem?_erase] at he
      split at he
      · cases he
      · exact halts id e he
  exact hall _ hn.1.alts

/-! ## Switching chains -/

/-- Pops that stop above the fence. -/
theorem holds_disconnectBlocks (now : Nat) {count : Nat} {n : Node} (hn : Holds env f low K P n)
    (hcount : f + count ≤ n.chain.mBlocks.length) :
    Holds env f low K P (stateOf (disconnectBlocks env now count n)) ∧
      ∀ bs n', disconnectBlocks env now count n = .ok (some bs) n' → ∀ b ∈ bs, K b := by
  induction count generalizing n with
  | zero =>
    refine ⟨hn, fun bs n' hr => ?_⟩
    cases hr
    exact fun b hb => absurd hb List.not_mem_nil
  | succ count ih =>
    unfold disconnectBlocks
    cases htop : n.chain.blockBefore n.chain.mBlocks.length with
    | error e =>
      have hread : readChain (fun s => s.blockBefore s.mBlocks.length) n = .error e n :=
        readChain_of_error htop
      rw [bind_of_error hread]
      exact ⟨hn, fun bs n' hr => by cases hr⟩
    | ok top =>
      have hread : readChain (fun s => s.blockBefore s.mBlocks.length) n = .ok top n :=
        readChain_of_ok htop
      -- the block on top stands above the fence, since `count` blocks may go
      have hK : K top.bl := by
        refine hn.1.main _ top (getElem?_of_blockBefore htop) ?_
        omega
      have hpop := h.holds_pop now hn (by omega)
      have hshort := popBlock_shortenedOrQuiet hn.1.sound now
      rw [bind_of_ok hread]
      cases hr : popBlockFromBlockchain env now n with
      | error e m =>
        rw [hr] at hpop
        rw [bind_of_error hr]
        exact ⟨hpop, fun bs n' hr => by cases hr⟩
      | ok r m =>
        rw [hr] at hpop hshort
        rw [bind_of_ok hr]
        cases r with
        | false => exact ⟨hpop, fun bs n' hr => by cases hr⟩
        | true =>
          have hlen : n.chain.mBlocks.length = m.chain.mBlocks.length + 1 := by
            obtain ⟨e, he⟩ := hshort.blocks
            rw [← length_forgetFlags, he, List.length_append, List.length_singleton,
              length_forgetFlags]
          obtain ⟨hrest, hbs⟩ := ih hpop (by
            show f + count ≤ m.chain.mBlocks.length
            omega)
          rw [stateOf_ok] at hrest hbs
          simp only [not_true_eq_false, if_false]
          cases hd : disconnectBlocks env now count m with
          | error e m' =>
            rw [hd] at hrest
            rw [bind_of_error hd]
            exact ⟨hrest, fun bs n' hr => by cases hr⟩
          | ok bs m' =>
            rw [hd] at hrest
            rw [bind_of_ok hd]
            cases bs with
            | none => exact ⟨hrest, fun bs n' hr => by cases hr⟩
            | some bs =>
              refine ⟨hrest, fun bs' n' hr b hb => ?_⟩
              cases hr
              rcases List.mem_append.1 hb with hb | hb
              · exact hbs bs _ hd b hb
              · rw [List.mem_singleton.1 hb]
                exact hK

theorem keeps_reconnectBlocks (now : Nat) {bs : List Block} (hbs : ∀ b ∈ bs, K b) :
    Keeps (Holds env f low K P) (reconnectBlocks env now bs) := by
  induction bs with
  | nil => exact Keeps.pure true
  | cons b rest ih =>
    obtain ⟨hb, hrest⟩ := List.forall_mem_cons.1 hbs
    exact Keeps.bind (h.keeps_push now hb) fun v => Keeps.ite (ih hrest) (Keeps.pure false)

theorem keeps_rollback (now : Nat) {original : List Block} {height : Nat}
    (horiginal : ∀ b ∈ original, K b) (hheight : f ≤ height) :
    Keeps (Holds env f low K P) (rollbackBlockchainSwitching env now original height) := by
  intro n hn
  unfold rollbackBlockchainSwitching
  rw [bind_of_ok (get_apply n)]
  have hfloor := hn.1.floor
  have hcount : f + (n.chain.mBlocks.length - height) ≤ n.chain.mBlocks.length := by omega
  obtain ⟨hd, -⟩ := h.holds_disconnectBlocks now hn hcount
  cases hr : disconnectBlocks env now (n.chain.mBlocks.length - height) n with
  | error e m =>
    rw [hr] at hd
    rw [bind_of_error hr]
    exact hd
  | ok bs m =>
    rw [hr] at hd
    rw [bind_of_ok hr]
    cases bs with
    | none => exact hd
    | some bs => exact h.keeps_reconnectBlocks now horiginal m hd

theorem keeps_orphanRest (chain : AltChain) : Keeps (Holds env f low K P) (orphanRest chain) := by
  cases chain with
  | nil => exact Keeps.pure _
  | cons p rest =>
    exact Keeps.bind (h.keeps_addBlockAsInvalid p.1 p.2) fun _ =>
      Keeps.bind (h.keeps_eraseAlt p.1) fun _ => Keeps.ite (Keeps.pure _) (Keeps.throw _)

theorem keeps_connectAltChain (now : Nat) {disconnected : List Block} {height : Nat}
    {chain : AltChain} (hold : ∀ b ∈ disconnected, K b) (hheight : f ≤ height)
    (hchain : ∀ p ∈ chain, K p.2.bl) :
    Keeps (Holds env f low K P) (connectAltChain env now disconnected height chain) := by
  induction chain with
  | nil => exact Keeps.pure true
  | cons p rest ih =>
    obtain ⟨hp, hrest⟩ := List.forall_mem_cons.1 hchain
    refine Keeps.bind (h.keeps_push now hp) fun v => Keeps.ite (ih hrest) ?_
    exact Keeps.bind (h.keeps_rollback now hold hheight) fun _ =>
      Keeps.bind (h.keeps_addBlockAsInvalid _ p.2) fun _ =>
        Keeps.bind (h.keeps_eraseAlt p.1) fun _ =>
          Keeps.bind (h.keeps_orphanRest rest) fun _ => Keeps.pure false

theorem keeps_switch {pushOld : Block → Hash → NodeM BlockVerdict}
    (hpush : ∀ b, K b → Keeps (Holds env f low K P) (pushOld b (getBlockHash env b))) (now : Nat)
    {chain : AltChain} (hchain : ∀ p ∈ chain, f ≤ p.2.height ∧ K p.2.bl) :
    Keeps (Holds env f low K P) (switchToAlternativeBlockchain env now pushOld chain) := by
  cases chain with
  | nil => exact Keeps.pure false
  | cons p rest =>
    obtain ⟨id, front⟩ := p
    intro n hn
    unfold switchToAlternativeBlockchain
    simp only
    rw [bind_of_ok (get_apply n)]
    have hheight : f ≤ front.height := (hchain _ List.mem_cons_self).1
    split
    · exact hn
    · next hlen =>
      have hcount : f + (n.chain.mBlocks.length - front.height) ≤ n.chain.mBlocks.length := by
        omega
      obtain ⟨hd, hbs⟩ := h.holds_disconnectBlocks now hn hcount
      cases hr : disconnectBlocks env now (n.chain.mBlocks.length - front.height) n with
      | error e m =>
        rw [hr] at hd
        rw [bind_of_error hr]
        exact hd
      | ok bs m =>
        rw [hr] at hd
        rw [bind_of_ok hr]
        cases bs with
        | none => exact hd
        | some disconnected =>
          have hold := hbs disconnected m hr
          refine Keeps.bind (P := Holds env f low K P)
            (h.keeps_connectAltChain now hold hheight fun q hq => (hchain q hq).2)
            (fun r => Keeps.ite (Keeps.pure false) ?_) m hd
          refine Keeps.bind (keeps_pushOldChain hpush hold) fun r => Keeps.ite ?_ ?_
          · exact Keeps.bind (h.keeps_rollback now hold hheight) fun _ => Keeps.pure false
          · exact Keeps.bind (h.keeps_eraseAltChain _) fun _ => Keeps.pure true

/-! ## Alternative blocks -/

end

omit P in
/-- The chain a block above the fence hangs on is above the fence. -/
theorem altChain_fenced {s : Storage} (halts : ∀ (id : Hash) e, s.mAlternativeChains[id]? = some e →
    f ≤ e.height ∧ K e.bl) {fuel : Nat} {id : Hash} {chain : AltChain}
    (h : altChainTo s.mAlternativeChains fuel id = .ok chain) :
    ∀ p ∈ chain, f ≤ p.2.height ∧ K p.2.bl := by
  induction fuel generalizing id chain with
  | zero => cases h
  | succ fuel ih =>
    unfold altChainTo at h
    cases he : s.mAlternativeChains[id]? with
    | none =>
      rw [he] at h
      cases h
      exact fun p hp => absurd hp List.not_mem_nil
    | some e =>
      rw [he] at h
      simp only at h
      cases hr : altChainTo s.mAlternativeChains fuel e.bl.prevId with
      | error x =>
        rw [hr] at h
        cases h
      | ok below =>
        rw [hr] at h
        cases h
        intro p hp
        rcases List.mem_append.1 hp with hp | hp
        · exact ih hr p hp
        · rw [List.mem_singleton.1 hp]
          exact halts id e he

section

variable (h : FenceInvariant env f low K P)

include h

/-- So is its height. -/
theorem candidate_fenced {n : Node} {b : Block} {c : AltCandidate} (hn : Fenced env f low K n)
    (hK : K b) (hc : altCandidate env n.chain b = .ok (.inr c)) :
    f ≤ c.height ∧ ∀ p ∈ c.altChain, f ≤ p.2.height ∧ K p.2.bl := by
  obtain ⟨split, hj⟩ := altCandidate_judged hc
  have hchain := altChain_fenced hn.alts hj.chain
  refine ⟨?_, hchain⟩
  rw [hj.height]
  cases hl : (c.altChain.map (·.2)).getLast? with
  | some e =>
    obtain ⟨p, hp, rfl⟩ := List.mem_map.1 (List.mem_of_getLast? hl)
    have := (hchain p hp).1
    simp only [Option.map_some, Option.getD_some]
    omega
  | none =>
    have hnil : c.altChain = [] := List.map_eq_nil_iff.1 (List.getLast?_eq_none_iff.1 hl)
    have hh := hj.hangs
    rw [hnil] at hh
    have hidx : indexHeight n.chain.mBlocksIndex b.prevId = some (split - 1) := hh
    have hat : n.chain.mBlocksIndex[split - 1]? = some b.prevId :=
      getElem?_of_indexHeight hidx
    simp only [Option.map_none, Option.getD_none]
    -- a parent below the fence is in `low`
    by_contra hlt
    have hpos := hj.split_pos
    exact h.hangs b hK (hn.low (split - 1) b.prevId hat (by omega))

theorem keeps_alternativeBlock {switch : AltChain → NodeM Bool}
    (hswitch : ∀ chain, (∀ p ∈ chain, f ≤ p.2.height ∧ K p.2.bl) →
      Keeps (Holds env f low K P) (switch chain)) {b : Block} (hK : K b) (id : Hash) :
    Keeps (Holds env f low K P) (alternativeBlock env switch b id) := by
  have body : Keeps (Holds env f low K P) (alternativeBlockBody env switch b id) := by
    intro n hn
    unfold alternativeBlockBody
    cases hc : altCandidate env n.chain b with
    | error e =>
      have hread : readChain (fun s => altCandidate env s b) n = .error e n := readChain_of_error hc
      rw [bind_of_error hread]
      exact hn
    | ok v =>
      have hread : readChain (fun s => altCandidate env s b) n = .ok v n := readChain_of_ok hc
      rw [bind_of_ok hread]
      cases v with
      | inl v => exact hn
      | inr c =>
        obtain ⟨hheight, hchain⟩ := h.candidate_fenced hn.1 hK hc
        have hzone : Holds env f low K P { n with chain := n.chain.setCheckpointZone c.height } :=
          ⟨⟨⟨hn.1.sound.index, hn.1.sound.outputs, hn.1.sound.txs, hn.1.sound.pool⟩, hn.1.floor,
            hn.1.low, hn.1.main, hn.1.alts⟩, h.zone n c.height hheight hn.2⟩
        show Holds env f low K P (stateOf (keepAlternativeBlock switch b id c n))
        unfold keepAlternativeBlock
        rw [bind_of_ok (onChain_modify _ n), bind_of_ok (get_apply _)]
        refine Keeps.ite (Keeps.pure _) (Keeps.bind (Keeps.reads _) fun prev =>
          Keeps.ite (Keeps.pure _) ?_) _ hzone
        have hentry : f ≤ (altBlockEntry b c prev).height ∧ K (altBlockEntry b c prev).bl :=
          ⟨hheight, hK⟩
        refine Keeps.bind (fun m hm => ?_) fun _ => Keeps.ite ?_ (Keeps.pure _)
        · refine h.holds_side hm _ m.chain.mInvalidBlocks fun id' e he => ?_
          rw [Std.ExtTreeMap.getElem?_insert] at he
          split at he
          · cases he
            exact hentry
          · exact hm.1.alts id' e he
        -- the branch that is switched to stands above the fence, the new block last
        · refine Keeps.bind (hswitch _ fun p hp => ?_) fun r => Keeps.pure _
          rcases List.mem_append.1 hp with hp | hp
          · exact hchain p hp
          · rw [List.mem_singleton.1 hp]
            exact hentry
  refine Keeps.bind Keeps.get fun n => Keeps.ite (Keeps.pure _) fun m hm => ?_
  have hb := body m hm
  unfold catchEntry
  cases hr : alternativeBlockBody env switch b id m with
  | ok v m' =>
    rw [hr] at hb
    exact hb
  | error e m' =>
    rw [hr] at hb
    cases e with
    | indexOverflow => exact hb
    | undefinedBehaviour => exact hb
    | endless => exact hb

/-- **Reorganisations above a fence** keep the fence and the property. -/
theorem keeps_handleAlternativeBlock (now depth : Nat) {b : Block} (hK : K b) (id : Hash) :
    Keeps (Holds env f low K P) (handleAlternativeBlock env now depth b id) := by
  induction depth generalizing b id with
  | zero => exact h.keeps_alternativeBlock (fun _ _ => Keeps.throw _) hK id
  | succ depth ih =>
    exact h.keeps_alternativeBlock (fun chain hchain =>
      h.keeps_switch (fun b hb => ih hb (getBlockHash env b)) now hchain) hK id

end

end FenceInvariant

end DarknetSpace
