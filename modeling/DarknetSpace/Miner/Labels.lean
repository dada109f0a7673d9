import DarknetSpace.Miner.Follow
import DarknetSpace.Lib.Runs

/-!
# Scratchpads and their labels

The daemon hands its scratchpad out in three ways. `extport_scratchpad_to_file` holds
the lock while it reads scratchpad and label. The two RPC handlers do not:
`on_getscratchpad` copies the scratchpad and then asks for the top block,
`on_getfullscratchpad2` asks for the top block first. A block that is added between
the two calls pairs one chain's scratchpad with another's label.

The chain is the node's, moved by incoming blocks and transactions; the handlers run
in other threads, any number of them at a time.

Main result: `scratchpads_labelled`, for every run in which the two calls of a handler
are not interrupted, and for the file always. Each handler is two events, with the
thread's own copy in between.
-/

namespace DarknetSpace

open SimpleMiner

/-- A handler between its two calls. -/
inductive PadRequest where
  | copied (pad : List Hash)
  | labelled (hi : HeightInfo)
  deriving DecidableEq

structure PadServer where
  node : Node
  requests : List PadRequest
  /-- The scratchpads handed out, with their labels. -/
  answers : List (List Hash × HeightInfo)
  /-- Every state the node has been in. -/
  seen : List Node

inductive PadEvent where
  | core (now depth : Nat) (ev : Event)
  | getScratchpad
  | getFullScratchpad2
  | finish (i : Nat)
  | extport

/-- The top of the chain. -/
def topHi (env : Env) (s : Storage) : HeightInfo :=
  ⟨UInt64.ofNat (s.mBlocks.length - 1), s.getTopBlockId env⟩

namespace PadServer

variable (env : Env)

/-- The second call of a handler. -/
def answer (p : PadServer) : PadRequest → List Hash × HeightInfo
  | .copied pad => (pad, getCurrentHi env p.node.chain)
  | .labelled hi => (p.node.chain.mScratchpad, hi)

def step : PadEvent → PadServer → Option PadServer
  | .core now depth ev, p =>
    match runEvent env now depth ev p.node with
    | .ok _ n => some { p with node := n, seen := p.seen ++ [n] }
    | .error .indexOverflow n => some { p with node := n, seen := p.seen ++ [n] }
    | .error _ _ => none
  | .getScratchpad, p =>
    some { p with requests := p.requests ++ [.copied p.node.chain.mScratchpad] }
  | .getFullScratchpad2, p =>
    some { p with requests := p.requests ++ [.labelled (getCurrentHi env p.node.chain)] }
  | .finish i, p =>
    match p.requests[i]? with
    | none => none
    | some r =>
      some { p with requests := p.requests.eraseIdx i, answers := p.answers ++ [p.answer env r] }
  | .extport, p =>
    let label : HeightInfo :=
      ⟨UInt64.ofNat (p.node.chain.mBlocks.length - 1), getBlockHash env (getTopBlock p.node.chain)⟩
    some { p with answers := p.answers ++ [(p.node.chain.mScratchpad, label)] }

/-- Scratchpad and label are of one chain. -/
def Labelled (p : PadServer) : Prop :=
  ∀ a ∈ p.answers, ∃ n ∈ p.seen, a = (n.chain.mScratchpad, topHi env n.chain)

/-- While a handler is between its calls, no block is added or taken away. -/
def Unmoved (e : PadEvent) (p : PadServer) : Prop :=
  p.requests ≠ [] → ∀ p' ∈ step env e p, topHi env p'.node.chain = topHi env p.node.chain ∧
    p'.node.chain.mScratchpad = p.node.chain.mScratchpad

instance (e : PadEvent) (p : PadServer) : Decidable (p.Unmoved env e) :=
  inferInstanceAs (Decidable (_ → _))

/-- A node that nobody has asked yet. -/
def start (n : Node) : PadServer := ⟨n, [], [], [n]⟩

variable {env}

/-- What a handler holds is still the node's. -/
def Current (env : Env) (n : Node) : PadRequest → Prop
  | .copied pad => pad = n.chain.mScratchpad
  | .labelled hi => hi = topHi env n.chain

structure Fit (env : Env) (p : PadServer) : Prop where
  reachable : Reachable env p.node
  seen : p.node ∈ p.seen
  current : ∀ r ∈ p.requests, Current env p.node r
  labelled : p.Labelled env

end PadServer

section

variable {env : Env} {p p' : PadServer}

theorem getCurrentHi_eq_topHi {n : Node} (hn : Reachable env n) :
    getCurrentHi env n.chain = topHi env n.chain := by
  obtain ⟨-, hnonempty⟩ := hn.wellNumbered
  have hlast := List.getLast?_eq_some_getLast hnonempty
  have hclaimed := hn.claimed _ _ (List.getLast?_eq_getElem?.symm.trans hlast)
  unfold getCurrentHi topHi getTopBlock Storage.getTopBlockId
  rw [hlast]
  simp only
  rw [← hclaimed, UInt64.ofNat_toNat]

theorem extport_label_eq_topHi {n : Node} (hn : Reachable env n) :
    (⟨UInt64.ofNat (n.chain.mBlocks.length - 1), getBlockHash env (getTopBlock n.chain)⟩ :
      HeightInfo) = topHi env n.chain := by
  obtain ⟨-, hnonempty⟩ := hn.wellNumbered
  unfold topHi getTopBlock Storage.getTopBlockId
  rw [List.getLast?_eq_some_getLast hnonempty]

namespace PadServer

theorem Labelled.concat {a : List Hash × HeightInfo} (h : p.Labelled env)
    (ha : ∃ n ∈ p.seen, a = (n.chain.mScratchpad, topHi env n.chain)) {requests : List PadRequest} :
    Labelled env { p with requests, answers := p.answers ++ [a] } := by
  intro b hb
  rcases List.mem_append.1 hb with hb | hb
  · exact h b hb
  · rw [List.mem_singleton.1 hb]
    exact ha

theorem Fit.core (hp : p.Fit env) {n : Node} (hn : Reachable env n)
    (hunmoved : p.requests ≠ [] → topHi env n.chain = topHi env p.node.chain ∧
      n.chain.mScratchpad = p.node.chain.mScratchpad) :
    Fit env { p with node := n, seen := p.seen ++ [n] } := by
  refine ⟨hn, List.mem_append_right _ (List.mem_singleton.2 rfl), ?_, ?_⟩
  · intro r hr
    obtain ⟨hhi, hpad⟩ := hunmoved (List.ne_nil_of_mem hr)
    have hcurrent := hp.current r hr
    cases r with
    | copied pad => exact hcurrent.trans hpad.symm
    | labelled hi => exact hcurrent.trans hhi.symm
  · intro a ha
    obtain ⟨m, hm, heq⟩ := hp.labelled a ha
    exact ⟨m, List.mem_append_left _ hm, heq⟩

theorem Fit.answer (hp : p.Fit env) {r : PadRequest} (hr : r ∈ p.requests) :
    p.answer env r = (p.node.chain.mScratchpad, topHi env p.node.chain) := by
  have hcurrent := hp.current r hr
  cases r with
  | copied pad =>
    have hpad : pad = p.node.chain.mScratchpad := hcurrent
    unfold PadServer.answer
    rw [hpad, getCurrentHi_eq_topHi hp.reachable]
  | labelled hi =>
    have hhi : hi = topHi env p.node.chain := hcurrent
    unfold PadServer.answer
    rw [hhi]

theorem Fit.request (hp : p.Fit env) {r : PadRequest} (hr : Current env p.node r) :
    Fit env { p with requests := p.requests ++ [r] } := by
  refine ⟨hp.reachable, hp.seen, ?_, hp.labelled⟩
  intro r' hr'
  rcases List.mem_append.1 hr' with hr' | hr'
  · exact hp.current r' hr'
  · rw [List.mem_singleton.1 hr']
    exact hr

theorem Fit.step (e : PadEvent) (hp : p.Fit env) (hunmoved : p.Unmoved env e)
    (hstep : PadServer.step env e p = some p') : p'.Fit env := by
  cases e with
  | core now depth ev =>
    have hmoved : p.requests ≠ [] → topHi env p'.node.chain = topHi env p.node.chain ∧
        p'.node.chain.mScratchpad = p.node.chain.mScratchpad := fun hne => hunmoved hne p' hstep
    have hrun : PadServer.step env (.core now depth ev) p = some p' := hstep
    simp only [PadServer.step] at hrun
    split at hrun
    next a n hr =>
      cases hrun
      exact hp.core (.step hp.reachable (.inl ⟨a, hr⟩)) hmoved
    next n hr =>
      cases hrun
      exact hp.core (.step hp.reachable (.inr hr)) hmoved
    next => cases hrun
  | getScratchpad =>
    cases hstep
    exact hp.request rfl
  | getFullScratchpad2 =>
    cases hstep
    exact hp.request (getCurrentHi_eq_topHi hp.reachable)
  | finish i =>
    have hrun : PadServer.step env (.finish i) p = some p' := hstep
    simp only [PadServer.step] at hrun
    split at hrun
    next => cases hrun
    next r hr =>
      cases hrun
      have hmem := List.mem_of_getElem? hr
      refine ⟨hp.reachable, hp.seen, ?_, ?_⟩
      · intro r' hr'
        exact hp.current r' (List.mem_of_mem_eraseIdx hr')
      · exact hp.labelled.concat ⟨p.node, hp.seen, hp.answer hmem⟩
  | extport =>
    cases hstep
    refine ⟨hp.reachable, hp.seen, hp.current, ?_⟩
    refine hp.labelled.concat ⟨p.node, hp.seen, ?_⟩
    rw [extport_label_eq_topHi hp.reachable]

end PadServer

end

/-- In every run in which no block comes or goes while a handler is between its two
calls, every scratchpad handed out carries the label of its own chain; and a file
written by the daemon or by the miner is read back as it was written, unless it has
expired. -/
theorem scratchpads_labelled {env : Env} {n : Node} {es : List PadEvent} {p : PadServer}
    (hn : Reachable env n) (hmeets : Runs.Meets (PadServer.step env) (PadServer.Unmoved env) es
      (PadServer.start n)) (hrun : Runs.run (PadServer.step env) es (PadServer.start n) = some p) :
    p.Labelled env ∧
    (∀ path fileTime now, path.length ≠ 0 → now - fileTime ≤ 60 * 60 * 24 * 3 →
      p.node.chain.mScratchpad.length * 32 < 2 ^ 64 →
      loadScratchpadFromFile path (some (fileTime, extportScratchpadToFile env p.node.chain)) now =
        some (true, ⟨[], topHi env p.node.chain, p.node.chain.mScratchpad⟩)) ∧
    ∀ (m : SimpleMiner) path fileTime now, path.length ≠ 0 → now - fileTime ≤ 60 * 60 * 24 * 3 →
      m.mScratchpad.length * 32 < 2 ^ 64 →
      loadScratchpadFromFile path (some (fileTime, m.storeScratchpadToFile)) now =
        some (true, ⟨[], m.mHi, m.mScratchpad⟩) := by
  have hkeeps : ∀ e s s', PadServer.Fit env s → PadServer.Unmoved env e s →
      PadServer.step env e s = some s' → PadServer.Fit env s' :=
    fun e _ _ hs hc hstep => hs.step e hc hstep
  have hstart : PadServer.Fit env (PadServer.start n) :=
    ⟨hn, List.mem_singleton.2 rfl, nofun, nofun⟩
  have hfit := Runs.run_keeps hkeeps hstart hmeets hrun
  refine ⟨hfit.labelled, ?_, ?_⟩
  · intro path fileTime now hpath hfresh hfits
    unfold extportScratchpadToFile
    rw [extport_label_eq_topHi hfit.reachable]
    exact load_scratchpadFile hpath hfresh _ hfits
  · intro m path fileTime now hpath hfresh hfits
    exact load_scratchpadFile hpath hfresh _ hfits

namespace Devnet

/-- The node with its genesis block and what its handlers did. -/
def padRun (es : List PadEvent) : Option PadServer :=
  Runs.run (PadServer.step env) es (.start (node ∅ []))

/-- Every handler finishes before the next block. -/
def handlersInTurn : List PadEvent :=
  [.getScratchpad, .finish 0, .core now 3 (.newBlock (mainBlock 1)), .getFullScratchpad2, .finish 0,
    .extport]

/-- A block is added between the two calls of both handlers. -/
def blockBetween : List PadEvent :=
  [.getScratchpad, .getFullScratchpad2, .core now 3 (.newBlock (mainBlock 1)), .finish 0, .finish 0]

/-- The answers that belong to no state of the node. -/
def mislabelled (p : PadServer) : List (List Hash × HeightInfo) :=
  p.answers.filter fun a => p.seen.all fun n => a != (n.chain.mScratchpad, topHi env n.chain)

end Devnet

/-- Three scratchpads handed out in turn. -/
theorem scratchpads_labelled_devnet :
    ∃ p, Devnet.padRun Devnet.handlersInTurn = some p ∧ p.answers.length = 3 ∧
      p.Labelled Devnet.env := by
  have eval :
      (Devnet.run ∅ []).isSome = true ∧
      ((Devnet.padRun Devnet.handlersInTurn).any fun p => p.answers.length = 3) = true ∧
      Runs.Meets (PadServer.step Devnet.env) (PadServer.Unmoved Devnet.env) Devnet.handlersInTurn
        (.start (Devnet.node ∅ [])) := by
    decide +kernel
  obtain ⟨hsome, hany, hmeets⟩ := eval
  obtain ⟨p, hp, hdec⟩ := (Option.any_eq_true _ _).1 hany
  have hlabelled := scratchpads_labelled (Devnet.reachable_node ∅ [] hsome) hmeets hp
  exact ⟨p, hp, of_decide_eq_true hdec, hlabelled.1⟩

/-- Both RPC handlers pair a scratchpad with the label of another chain. -/
theorem scratchpads_mislabelled :
    Reachable Devnet.env (Devnet.node ∅ []) ∧
      ∃ p, Devnet.padRun Devnet.blockBetween = some p ∧ (Devnet.mislabelled p).length = 2 ∧
        ¬ p.Labelled Devnet.env := by
  have eval :
      (Devnet.run ∅ []).isSome = true ∧
      ((Devnet.padRun Devnet.blockBetween).any fun p => (Devnet.mislabelled p).length = 2) = true := by
    decide +kernel
  obtain ⟨hsome, hany⟩ := eval
  obtain ⟨p, hp, hdec⟩ := (Option.any_eq_true _ _).1 hany
  have htwo : (Devnet.mislabelled p).length = 2 := of_decide_eq_true hdec
  refine ⟨Devnet.reachable_node ∅ [] hsome, p, hp, htwo, fun hlabelled => ?_⟩
  obtain ⟨a, ha⟩ := List.exists_mem_of_length_pos (by rw [htwo]; exact Nat.two_pos)
  obtain ⟨hanswer, hnone⟩ := List.mem_filter.1 ha
  obtain ⟨n, hn, heq⟩ := hlabelled a hanswer
  have hne := List.all_eq_true.1 hnone n hn
  rw [heq] at hne
  simp at hne

end DarknetSpace
