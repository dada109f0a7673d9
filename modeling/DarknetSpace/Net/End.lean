import DarknetSpace.Net.Receiving

/-!
# One end of a connection

`End` is a connection with its handler, its cache, and how much of the first entry
of the send queue is written. Its events are calls from outside, pieces read,
bytes written and writes finished, timers, and errors of the socket, in any order;
`End.step` refuses those that cannot happen.

`End.Held` is what every event keeps (`End.step_held`): `Kept`, and `Going` as
long as the connection is read. It says nothing of the other end, which may send
whatever it likes. `End.callbacks_once` is what this comes to for the callbacks:
each is called once, or a timer of it still runs or has to be seen to.
-/

namespace DarknetSpace.Levin

open Framing AsyncProtocolHandler

namespace AsyncProtocolHandler

variable {α κ : Type} {g : Config α κ} {h h' : AsyncProtocolHandler α κ} {reading : Prop}

/-! ## Timers and writes -/

/-- A block of the queue goes out: nothing of what is kept is about the queue. -/
theorem Holding.handleWrite (hh : h.Holding reading []) :
    (h.handleWrite g).Holding reading [] := by
  have hpop := hh.endpoint
    (c := { h.mPserviceEndpoint with mSendQue := h.mPserviceEndpoint.mSendQue.tail }) rfl
    h.mCloseCalled
  unfold AsyncProtocolHandler.handleWrite
  simp only
  split
  · exact hpop.shutdown
  · exact hpop

/-- A timer that fires takes its call off those that wait, until `timeout` runs. -/
theorem Holding.timerFires (hh : h.Holding reading []) {i : Nat} (ht : h.timerFires i = some h') :
    h'.Holding reading [] := by
  obtain ⟨hk, hg⟩ := hh
  unfold AsyncProtocolHandler.timerFires at ht
  obtain ⟨x, hx, ht⟩ := Option.bind_eq_some_iff.1 ht
  split at ht
  · next hwaiting =>
    cases ht
    obtain ⟨hi, hx⟩ := List.getElem?_eq_some_iff.1 hx
    have hxs : h.mInvokeResponseHandlers = h.mInvokeResponseHandlers.take i ++ x ::
        h.mInvokeResponseHandlers.drop (i + 1) := by
      rw [← hx, ← List.drop_eq_getElem_cons hi, List.take_append_drop]
    have hset : h.mInvokeResponseHandlers.set i { x with waiting := false } =
        h.mInvokeResponseHandlers.take i ++ { x with waiting := false } ::
          h.mInvokeResponseHandlers.drop (i + 1) := by
      rw [List.set_eq_take_append_cons_drop, if_pos hi]
    -- the handlers are those before the one whose timer goes off, that one, and those behind
    generalize h.mInvokeResponseHandlers.take i = before at hxs hset
    generalize h.mInvokeResponseHandlers.drop (i + 1) = after at hxs hset
    rw [hset]
    have hwas : waitingCbs h.mInvokeResponseHandlers =
        waitingCbs before ++ x.mCb :: waitingCbs after := by
      rw [hxs, waitingCbs_append, waitingCbs_cons hwaiting]
    have hnow : waitingCbs (before ++ { x with waiting := false } :: after) =
        waitingCbs before ++ waitingCbs after := by
      rw [waitingCbs_append, waitingCbs_cons_of_not rfl]
    refine ⟨{ hk with
      emptied := fun hrel => ?_
      timers := fun y hy hcalled => ?_
      pending := fun hrel => ?_
      onceEach := ?_ }, fun hr => ⟨(hg hr).version, (hg hr).complete, ?_⟩⟩
    · have hnil := hk.emptied hrel
      rw [hxs] at hnil
      simp at hnil
    · have hx' := hk.timers x (by rw [hxs]; simp)
      rcases List.mem_append.1 hy with hy | hy
      · exact hk.timers y (by rw [hxs]; exact List.mem_append_left _ hy) hcalled
      · rcases List.mem_cons.1 hy with rfl | hy
        · exact ⟨rfl, (hx' hcalled).2⟩
        · exact hk.timers y (by rw [hxs]; simp [hy]) hcalled
    · have hpending := hk.pending hrel
      rw [hxs, List.map_append, List.map_cons] at hpending
      show (before ++ _ :: after).map AnvokeHandler.mCb = _
      rw [List.map_append, List.map_cons]
      exact hpending
    · show (h.past.given : Multiset κ) = (h.past.answered.map Prod.fst : Multiset κ) +
        (h.past.failed.map Prod.fst : Multiset κ) + ((h.timeouts ++ [x.mCb] : List κ) : Multiset κ) +
        (waitingCbs (before ++ _ :: after) : Multiset κ)
      -- its callback moves from the waiting ones to the timed out ones
      rw [hk.onceEach, hwas, hnow, ← Multiset.coe_add, ← Multiset.coe_add, ← Multiset.coe_add,
        ← Multiset.cons_coe, ← Multiset.singleton_add, Multiset.coe_singleton]
      abel
    · rcases (hg hr).inOrder with hstray | hrel | ⟨y, ys, hy, hstuck⟩ | hlen
      · exact .inl hstray
      · exact .inr (.inl hrel)
      · -- the first was stuck already, so it is another timer that goes off
        rw [hxs] at hy
        cases before with
        | nil =>
          cases hy
          rw [hwaiting] at hstuck
          cases hstuck
        | cons z before =>
          cases hy
          exact .inr (.inr (.inl ⟨_, _, rfl, hstuck⟩))
      · exact .inr (.inr (.inr hlen))
  · cases ht

/-- The handler of a timer tells its callback, and that closes the call. -/
theorem Holding.timeout (hh : h.Holding reading []) {i : Nat} (ht : h.timeout g i = some h') :
    h'.Holding reading [] := by
  obtain ⟨hk, hg⟩ := hh
  unfold AsyncProtocolHandler.timeout at ht
  obtain ⟨cb, hcb, ht⟩ := Option.bind_eq_some_iff.1 ht
  cases ht
  obtain ⟨hi, hcb⟩ := List.getElem?_eq_some_iff.1 hcb
  have hone := List.getElem_cons_eraseIdx_perm hi
  rw [hcb] at hone
  have htold (context : α) : Holding reading [] { h with
      mConnectionContext := context
      timeouts := h.timeouts.eraseIdx i
      past := h.past.fail cb levinErrorConnectionTimedout } := by
    refine ⟨{ hk with onceEach := ?_ },
      fun hr => ⟨(hg hr).version, (hg hr).complete, (hg hr).inOrder⟩⟩
    show (h.past.given : Multiset κ) = (h.past.answered.map Prod.fst : Multiset κ) +
      ((h.past.failed ++ [(cb, levinErrorConnectionTimedout)]).map Prod.fst : Multiset κ) +
      ((h.timeouts.eraseIdx i : List κ) : Multiset κ) +
      (waitingCbs h.mInvokeResponseHandlers : Multiset κ)
    rw [hk.onceEach, ← Multiset.coe_eq_coe.2 hone, List.map_append, ← Multiset.coe_add,
      ← Multiset.cons_coe, ← Multiset.singleton_add, List.map_cons, List.map_nil,
      Multiset.coe_singleton]
    abel
  have hafter : Holding reading [] (({ h with timeouts := h.timeouts.eraseIdx i }.giveError g
      (AsyncProtocolHandler.close g) cb levinErrorConnectionTimedout).close g) := by
    obtain ⟨context, hsame | hclosed⟩ := giveError_cases (g := g)
      { h with timeouts := h.timeouts.eraseIdx i } cb levinErrorConnectionTimedout
    · rw [hsame]
      exact (htold context).close
    · rw [hclosed]
      exact (htold context).close.close
  exact ⟨hafter.1.finish, fun hr =>
    ⟨(hafter.2 hr).version, (hafter.2 hr).complete, (hafter.2 hr).inOrder⟩⟩

end AsyncProtocolHandler

/-! ## One end of a connection -/

/-- What a read brings at most: `buffer_` has this size. -/
def readBufferSize : Nat := 8192

/-- A connection: its handler with the cache, and how much of the first entry of the send queue
has been written. -/
structure End (α κ : Type) where
  reader : Reader (AsyncProtocolHandler α κ) UInt8
  written : Nat

/-- What happens at an end of a connection. -/
inductive EndEvent (κ : Type) where
  | call (c : Call κ)
  | read (piece : Blob)
  | write (n : Nat)
  | handleWrite
  | timerFires (i : Nat)
  | timeout (i : Nat)
  | socketError

namespace End

variable {α κ : Type} (g : Config α κ)

/-- The protocol handler of an end, whether it still reads or not. -/
def handler (e : End α κ) : AsyncProtocolHandler α κ := e.reader.state

/-- Before anything happens. -/
def start (context : α) : End α κ := ⟨.waiting (.start context) [], 0⟩

/-- `handle_read`: when `handle_recv` returns `false`, the connection is to be closed and is
read no more. -/
def handleRead : Reader (AsyncProtocolHandler α κ) UInt8 → Blob →
    Option (Reader (AsyncProtocolHandler α κ) UInt8)
  | .stopped _, _ => none
  | .waiting h cache, piece =>
    if piece.isEmpty ∨ readBufferSize < piece.length then none
    else
      match handleRecv g (.waiting h cache) piece with
      | .stopped h => some (.stopped (h.closeConnection g))
      | r => some r

/-- One event; `none` where it cannot happen. -/
def step : EndEvent κ → End α κ → Option (End α κ)
  | .call c, e => some { e with reader := e.reader.map (·.call g c) }
  | .read piece, e => (handleRead g e.reader piece).map fun r => { e with reader := r }
  | .write n, e =>
    match e.handler.mPserviceEndpoint.mSendQue with
    | [] => none
    | entry :: _ =>
      if entry.length < e.written + n ∨ e.handler.mPserviceEndpoint.mWasShutdown then none
      else some { e with written := e.written + n }
  | .handleWrite, e =>
    match e.handler.mPserviceEndpoint.mSendQue with
    | [] => none
    | entry :: _ =>
      if e.written ≠ entry.length then none
      else some { reader := e.reader.map (·.handleWrite g), written := 0 }
  | .timerFires i, e =>
    (e.handler.timerFires i).map fun h => { e with reader := e.reader.map fun _ => h }
  | .timeout i, e =>
    (e.handler.timeout g i).map fun h => { e with reader := e.reader.map fun _ => h }
  | .socketError, e => some { e with reader := e.reader.map (·.shutdown g) }

variable {g} {e e' : End α κ}

/-- What an end keeps, whoever is at the other end. -/
def Held (e : End α κ) : Prop := e.handler.Holding e.reader.Reading []

/-- Nothing has happened at the start. -/
theorem start_held (context : α) : (start context : End α κ).Held :=
  ⟨{ released := rfl
     emptied := fun hrel => Bool.noConfusion hrel
     timers := fun _ hx => absurd hx List.not_mem_nil
     asked := rfl
     served := rfl
     replied := List.prefix_rfl
     counted := Nat.le_refl 0
     answered := fun _ => List.nil_prefix
     pending := fun _ => rfl
     onceEach := rfl }, fun _ => ⟨fun hs => StreamState.noConfusion hs, rfl, .inr (.inr (.inr rfl))⟩⟩

theorem Held.map (hh : e.Held) {f : AsyncProtocolHandler α κ → AsyncProtocolHandler α κ}
    (hf : e.handler.Holding e.reader.Reading [] → (f e.handler).Holding e.reader.Reading [])
    (written : Nat) : Held { reader := e.reader.map f, written := written } := by
  show (e.reader.map f).state.Holding (e.reader.map f).Reading []
  rw [Reader.state_map, Reader.reading_map]
  exact hf hh

/-- A piece that is read, by the loop over its packets. -/
theorem handleRead_held {r r' : Reader (AsyncProtocolHandler α κ) UInt8}
    (hh : r.state.Holding r.Reading []) {piece : Blob} (hread : handleRead g r piece = some r') :
    r'.state.Holding r'.Reading [] := by
  cases r with
  | stopped h => cases hread
  | waiting h cache =>
    obtain ⟨hk, hg⟩ := hh
    have hrecv : Holds (fun h _ => h.Kept ∧ h.Going []) (fun h => h.Kept)
        (handleRecv g (.waiting h cache) piece) := by
      unfold handleRecv
      simp only
      split
      · exact hk
      · split
        · exact hk
        · exact drain_keeps (fun _ _ _ _ hI ht => hI.1.turn hI.2 ht)
            (fun _ _ _ hI ht => hI.1.turn_stop hI.2 ht) ⟨hk, hg trivial⟩
    unfold handleRead at hread
    simp only at hread
    split at hread
    · cases hread
    · generalize handleRecv g (.waiting h cache) piece = out at hrecv hread
      cases out with
      | waiting h' cache' =>
        cases hread
        exact ⟨hrecv.1, fun _ => hrecv.2⟩
      | stopped h' =>
        cases hread
        have hfree : h'.Holding False [] := ⟨hrecv, False.elim⟩
        exact hfree.closeConnection

/-- **Every event keeps it.** -/
theorem step_held {ev : EndEvent κ} (hh : e.Held) (hstep : step g ev e = some e') :
    e'.Held := by
  cases ev with
  | call c =>
    cases hstep
    exact hh.map (fun hh => hh.leads (call_leads .refl c)) _
  | read piece =>
    obtain ⟨r, hr, rfl⟩ := Option.map_eq_some_iff.1 hstep
    exact handleRead_held hh hr
  | write n =>
    simp only [step] at hstep
    split at hstep
    · cases hstep
    · split at hstep
      · cases hstep
      · cases hstep
        exact hh
  | handleWrite =>
    simp only [step] at hstep
    split at hstep
    · cases hstep
    · split at hstep
      · cases hstep
      · cases hstep
        exact hh.map (fun hh => hh.handleWrite) _
  | timerFires i =>
    obtain ⟨h', hfires, rfl⟩ := Option.map_eq_some_iff.1 hstep
    exact hh.map (fun hh => hh.timerFires hfires) _
  | timeout i =>
    obtain ⟨h', htimeout, rfl⟩ := Option.map_eq_some_iff.1 hstep
    exact hh.map (fun hh => hh.timeout htimeout) _
  | socketError =>
    cases hstep
    exact hh.map (fun hh => hh.shutdown) _

/-- **Whatever the other end sends, each callback is called once**: with a response, with an
error, or it is still waited for; on a connection that was shut down none is, once the timers
that went off have been seen to. -/
theorem callbacks_once {context : α} {evs : List (EndEvent κ)}
    (hrun : Runs.run (step g) evs (start context) = some e) :
    (e.handler.past.answered.map Prod.fst ++ e.handler.past.failed.map Prod.fst ++
      e.handler.timeouts ++ waitingCbs e.handler.mInvokeResponseHandlers).Perm
        e.handler.past.given ∧
    (e.handler.mPserviceEndpoint.mWasShutdown = true →
      waitingCbs e.handler.mInvokeResponseHandlers = []) := by
  obtain ⟨hk, -⟩ := Runs.run_invariant (fun _ _ _ hh hstep => step_held hh hstep)
    (start_held context) hrun
  constructor
  · rw [← Multiset.coe_eq_coe, hk.onceEach]
    simp only [Multiset.coe_add]
  · intro hshut
    rw [hk.emptied (hk.released.trans hshut)]
    rfl

end End

namespace Echo

/-- The response to the call of the example. -/
def answer : Packet :=
  ⟨responseHead (requestHead 1001 longBody true) 1 [3, 2, 1], [3, 2, 1]⟩

/-- The answer to the first of two requests comes, the timer of the second goes off. -/
def lateAnswer : List (EndEvent Nat) :=
  [.call (.asyncInvoke 1001 longBody 7), .call (.asyncInvoke 1001 shortBody 8),
    .read answer.toBytes, .timerFires 0, .timeout 0]

theorem lateAnswer_runs :
    (Runs.run (End.step config) lateAnswer (.start [])).isSome = true := by decide +kernel

end Echo

/-- One of two calls is answered and the other times out: each callback runs once. -/
theorem callbacks_once_late : ∃ e : End (List Blob) Nat,
    Runs.run (End.step Echo.config) Echo.lateAnswer (.start []) = some e ∧
    e.handler.past.answered = [(7, 1001, [3, 2, 1])] ∧
    e.handler.past.failed = [(8, levinErrorConnectionTimedout)] ∧
    (e.handler.past.answered.map Prod.fst ++ e.handler.past.failed.map Prod.fst ++
      e.handler.timeouts ++ waitingCbs e.handler.mInvokeResponseHandlers).Perm
        e.handler.past.given :=
  ⟨_, (Option.some_get Echo.lateAnswer_runs).symm, by decide +kernel, by decide +kernel,
    (End.callbacks_once (Option.some_get Echo.lateAnswer_runs).symm).1⟩

end DarknetSpace.Levin
