import DarknetSpace.Chain.Outputs
import DarknetSpace.Chain.Inputs
import DarknetSpace.Chain.Frame

/-!
# The per-amount index and the indexes kept in the entries

An output's global index is stored twice: as a number in its transaction's
entry, and as its position in `m_outputs[amount]`. Both are written by one loop,
`push_transaction_to_global_outs_index`, so a chain whose transactions were all
pushed in order has the two in agreement: the index lists, amount by amount, the
outputs of the chain in chain order, and the number in the entry is the place in
that list. `m_transactions` is written beside them, and lists the places of the
same transactions by id.

`Consistent` is the agreement, as a statement about the chain and the indexes alone. It
is kept by a push and given back by a pop (`Core/Tower`). The functions that serve
indexes read either the one or the other, and give the same.
-/

namespace DarknetSpace

/-- A transaction of the chain as the indexes see it: its id, its place, its
outputs, and the indexes its entry keeps. -/
structure Placed where
  id : Hash
  idx : TransactionIndex
  vout : List TxOut
  indexes : List Nat

/-- The transactions of a block that is at place `b`, from the `t`-th on. -/
def placedFrom (env : Env) (b : Nat) : (t : Nat) → List TransactionEntry → List Placed
  | _, [] => []
  | t, e :: rest =>
    ⟨getTransactionHash env e.tx, ⟨b, UInt16.ofNat t⟩, e.tx.vout, e.mGlobalOutputIndexes⟩ ::
      placedFrom env b (t + 1) rest

/-- The transactions of the blocks in chain order, the first block at place `b`. -/
def placedBlocks (env : Env) : (b : Nat) → List BlockEntry → List Placed
  | _, [] => []
  | b, e :: rest => placedFrom env b 0 e.transactions ++ placedBlocks env (b + 1) rest

/-- The indexes that recording the transactions in order makes. -/
inductive Indexed : List Placed → Map Hash TransactionIndex → Map UInt64 AmountOuts → Prop where
  | nil : Indexed [] ∅ ∅
  | push {ts : List Placed} {txs : Map Hash TransactionIndex} {outputs : Map UInt64 AmountOuts}
      {id : Hash} (h : Indexed ts txs outputs) (fresh : txs[id]? = none)
      (idx : TransactionIndex) (vout : List TxOut) :
      Indexed (ts ++ [⟨id, idx, vout, (pushOutputs idx 0 vout outputs).2⟩]) (txs.insert id idx)
        (pushOutputs idx 0 vout outputs).1

/-! ## Places in chain order -/

/-- `p` comes before `q` in the chain. -/
def TransactionIndex.Before (p q : TransactionIndex) : Prop :=
  p.block < q.block ∨ p.block = q.block ∧ p.transaction < q.transaction

/-- The output `p` comes before the output `q`. -/
def OutputBefore (p q : TransactionIndex × UInt16) : Prop :=
  p.1.Before q.1 ∨ p.1 = q.1 ∧ p.2 < q.2

theorem TransactionIndex.Before.irrefl (p : TransactionIndex) : ¬ p.Before p := by
  intro h
  rcases h with h | ⟨_, h⟩
  · exact absurd h (Nat.lt_irrefl _)
  · exact absurd h (UInt16.lt_irrefl _)

theorem OutputBefore.irrefl (p : TransactionIndex × UInt16) : ¬ OutputBefore p p := by
  intro h
  rcases h with h | ⟨_, h⟩
  · exact h.irrefl
  · exact absurd h (UInt16.lt_irrefl _)

/-! ## One transaction -/

/-- What the loop from output `i` on appends under an amount. -/
def newOuts (idx : TransactionIndex) (a : UInt64) : (i : Nat) → List TxOut → AmountOuts
  | _, [] => []
  | i, o :: rest =>
    (if o.amount = a then [(idx, UInt16.ofNat i)] else []) ++ newOuts idx a (i + 1) rest

theorem getD_pushOutputs (idx : TransactionIndex) (a : UInt64) (i : Nat) (vout : List TxOut)
    (outputs : Map UInt64 AmountOuts) :
    (pushOutputs idx i vout outputs).1.getD a [] = outputs.getD a [] ++ newOuts idx a i vout := by
  induction vout generalizing i outputs with
  | nil => exact (List.append_nil _).symm
  | cons o rest ih =>
    show (pushOutputs idx (i + 1) rest (pushOutput outputs o.amount (idx, UInt16.ofNat i))).1.getD
      a [] = _
    rw [ih, getD_pushOutput, List.append_assoc]
    rfl

/-- Each of them designates its output. -/
theorem mem_newOuts {idx : TransactionIndex} {a : UInt64} {i : Nat} {vout : List TxOut}
    (hlen : i + vout.length ≤ 65536) {p : TransactionIndex × UInt16} (hp : p ∈ newOuts idx a i vout) :
    p.1 = idx ∧ i ≤ p.2.toNat ∧ ∃ o, vout[p.2.toNat - i]? = some o ∧ o.amount = a := by
  induction vout generalizing i with
  | nil => cases hp
  | cons o rest ih =>
    rw [List.length_cons] at hlen
    rcases List.mem_append.1 hp with hp | hp
    · split at hp
      · next ha =>
        rw [List.mem_singleton.1 hp]
        have hi : (UInt16.ofNat i).toNat = i := Nat.mod_eq_of_lt (by omega)
        refine ⟨rfl, hi.ge, o, ?_, ha⟩
        show (o :: rest)[(UInt16.ofNat i).toNat - i]? = some o
        rw [hi, Nat.sub_self]
        rfl
      · cases hp
    · obtain ⟨hidx, hle, o', ho', ha⟩ := ih (by omega) hp
      refine ⟨hidx, by omega, o', ?_, ha⟩
      rw [show p.2.toNat - i = p.2.toNat - (i + 1) + 1 by omega]
      exact ho'

/-- And they come in the order of the outputs. -/
theorem pairwise_newOuts {idx : TransactionIndex} {a : UInt64} {i : Nat} {vout : List TxOut}
    (hlen : i + vout.length ≤ 65536) : (newOuts idx a i vout).Pairwise OutputBefore := by
  induction vout generalizing i with
  | nil => exact .nil
  | cons o rest ih =>
    rw [List.length_cons] at hlen
    refine List.pairwise_append.2 ⟨?_, ih (by omega), ?_⟩
    · split
      · exact List.pairwise_singleton _ _
      · exact .nil
    · intro p hp q hq
      split at hp
      · obtain ⟨hidx, hle, _⟩ := mem_newOuts (by omega) hq
        rw [List.mem_singleton.1 hp]
        have hi : (UInt16.ofNat i).toNat = i := Nat.mod_eq_of_lt (by omega)
        refine .inr ⟨hidx.symm, ?_⟩
        show (UInt16.ofNat i) < q.2
        rw [UInt16.lt_iff_toNat_lt, hi]
        omega
      · cases hp

/-- The number an output gets is where the loop puts it. -/
theorem pushOutputs_index {idx : TransactionIndex} {i : Nat} {vout : List TxOut}
    {outputs : Map UInt64 AmountOuts} {k : Nat} {o : TxOut} (ho : vout[k]? = some o) :
    ∃ g, (pushOutputs idx i vout outputs).2[k]? = some g ∧
      ((pushOutputs idx i vout outputs).1.getD o.amount [])[g]? = some (idx, UInt16.ofNat (i + k)) := by
  induction vout generalizing i outputs k with
  | nil => cases ho
  | cons o' rest ih =>
    cases k with
    | zero =>
      cases ho
      refine ⟨(outputs.getD o.amount []).length, rfl, ?_⟩
      show ((pushOutputs idx (i + 1) rest
        (pushOutput outputs o.amount (idx, UInt16.ofNat i))).1.getD o.amount [])[_]? = _
      rw [getD_pushOutputs, getD_pushOutput, if_pos rfl, List.append_assoc,
        List.getElem?_append_right (Nat.le_refl _), Nat.sub_self]
      rfl
    | succ k =>
      obtain ⟨g, hg, hplace⟩ := ih (i := i + 1) ho
      exact ⟨g, hg, by rw [show i + (k + 1) = i + 1 + k by omega]; exact hplace⟩

/-! ## The whole index -/

/-- The transactions are in chain order, with fewer outputs than the counter
holds. -/
structure InOrder (ts : List Placed) : Prop where
  sorted : ts.Pairwise fun p q => p.idx.Before q.idx
  outs : ∀ p ∈ ts, p.vout.length ≤ 65536

/-- What the indexes and the entries say about each other. -/
structure Consistent (ts : List Placed) (txs : Map Hash TransactionIndex)
    (outputs : Map UInt64 AmountOuts) : Prop where
  /-- `m_transactions` lists the transactions by id. -/
  transactions : ∀ (id : Hash) idx, txs[id]? = some idx ↔ ∃ p ∈ ts, p.id = id ∧ p.idx = idx
  /-- An entry's index leads to its output. -/
  place : ∀ p ∈ ts, ∀ k o, p.vout[k]? = some o → ∃ g, p.indexes[k]? = some g ∧
    (outputs.getD o.amount [])[g]? = some (p.idx, UInt16.ofNat k)
  /-- Every place of the index designates an output of its amount. -/
  output : ∀ (a : UInt64) (i : Nat) (q : TransactionIndex × UInt16),
    (outputs.getD a [])[i]? = some q → ∃ p ∈ ts, p.idx = q.1 ∧
    ∃ o, p.vout[q.2.toNat]? = some o ∧ o.amount = a
  /-- The outputs of an amount are in chain order. -/
  order : ∀ a : UInt64, (outputs.getD a []).Pairwise OutputBefore
  noEmpty : NoEmptyOuts outputs

theorem Indexed.consistent {ts : List Placed} {txs : Map Hash TransactionIndex}
    {outputs : Map UInt64 AmountOuts} (h : Indexed ts txs outputs) (ho : InOrder ts) :
    Consistent ts txs outputs := by
  induction h with
  | nil =>
    refine ⟨fun id idx => ?_, fun p hp => absurd hp List.not_mem_nil, fun a i q hq => ?_,
      fun a => ?_, fun a => ?_⟩
    · rw [Std.ExtTreeMap.getElem?_empty]
      simp
    · rw [Std.ExtTreeMap.getD_empty] at hq
      cases hq
    · rw [Std.ExtTreeMap.getD_empty]
      exact .nil
    · rw [Std.ExtTreeMap.getElem?_empty]
      exact fun h => by cases h
  | @push ts txs outputs id h fresh idx vout ih =>
    obtain ⟨hsorted, _, hcross⟩ := List.pairwise_append.1 ho.sorted
    have hc := ih ⟨hsorted, fun p hp => ho.outs p (List.mem_append_left _ hp)⟩
    have hlen : 0 + vout.length ≤ 65536 := by
      rw [Nat.zero_add]
      exact ho.outs _ (List.mem_append_right _ (List.mem_singleton.2 rfl))
    refine ⟨fun id' idx' => ?_, fun p hp k o hk => ?_, fun a i q hq => ?_, fun a => ?_,
      hc.noEmpty.pushOutputs idx 0 vout⟩
    · rw [Std.ExtTreeMap.getElem?_insert]
      by_cases hid : id = id'
      · subst hid
        -- nothing was filed under the new id
        have hold : ∀ p ∈ ts, p.id ≠ id := by
          intro p hp hpid
          have := (hc.transactions id p.idx).2 ⟨p, hp, hpid, rfl⟩
          rw [fresh] at this
          cases this
        rw [if_pos Std.ReflCmp.compare_self]
        constructor
        · intro h
          exact ⟨_, List.mem_append_right _ (List.mem_singleton.2 rfl), rfl, Option.some.inj h⟩
        · intro ⟨p, hp, hpid, hpidx⟩
          rcases List.mem_append.1 hp with hp | hp
          · exact absurd hpid (hold p hp)
          · rw [List.mem_singleton.1 hp] at hpidx
            exact congrArg some hpidx
      · rw [if_neg fun hcmp => hid (Std.LawfulEqCmp.eq_of_compare hcmp), hc.transactions]
        constructor
        · intro ⟨p, hp, hpid, hpidx⟩
          exact ⟨p, List.mem_append_left _ hp, hpid, hpidx⟩
        · intro ⟨p, hp, hpid, hpidx⟩
          rcases List.mem_append.1 hp with hp | hp
          · exact ⟨p, hp, hpid, hpidx⟩
          · rw [List.mem_singleton.1 hp] at hpid
            exact absurd hpid hid
    · rcases List.mem_append.1 hp with hp | hp
      · -- what was there stays where it was
        obtain ⟨g, hg, hplace⟩ := hc.place p hp k o hk
        refine ⟨g, hg, ?_⟩
        rw [getD_pushOutputs, List.getElem?_append_left (List.getElem?_eq_some_iff.1 hplace).1]
        exact hplace
      · rw [List.mem_singleton.1 hp] at hk ⊢
        obtain ⟨g, hg, hplace⟩ := pushOutputs_index hk
        exact ⟨g, hg, by rwa [Nat.zero_add] at hplace⟩
    · rw [getD_pushOutputs] at hq
      rcases List.mem_append.1 (List.mem_of_getElem? hq) with hold | hnew
      · obtain ⟨i, hi⟩ := List.getElem?_of_mem hold
        obtain ⟨p, hp, hout⟩ := hc.output a i q hi
        exact ⟨p, List.mem_append_left _ hp, hout⟩
      · obtain ⟨hidx, _, o, ho', ha⟩ := mem_newOuts hlen hnew
        exact ⟨_, List.mem_append_right _ (List.mem_singleton.2 rfl), hidx.symm, o, ho', ha⟩
    · rw [getD_pushOutputs]
      refine List.pairwise_append.2 ⟨hc.order a, pairwise_newOuts hlen, ?_⟩
      -- the new transaction comes after all others
      intro q hq q' hq'
      obtain ⟨i, hi⟩ := List.getElem?_of_mem hq
      obtain ⟨p, hp, hpq, _⟩ := hc.output a i q hi
      obtain ⟨hidx, _⟩ := mem_newOuts hlen hq'
      left
      rw [← hpq, hidx]
      exact hcross p hp _ (List.mem_singleton.2 rfl)

/-- No output is listed twice. -/
theorem Consistent.unique {ts : List Placed} {txs : Map Hash TransactionIndex}
    {outputs : Map UInt64 AmountOuts} (h : Consistent ts txs outputs) {a : UInt64} {i j : Nat} {q : TransactionIndex × UInt16}
    (hi : (outputs.getD a [])[i]? = some q) (hj : (outputs.getD a [])[j]? = some q) : i = j := by
  have hlt : ∀ {i j : Nat}, (outputs.getD a [])[i]? = some q → (outputs.getD a [])[j]? = some q →
      ¬ i < j := by
    intro i j hi hj hij
    obtain ⟨hi', rfl⟩ := List.getElem?_eq_some_iff.1 hi
    obtain ⟨hj', hq⟩ := List.getElem?_eq_some_iff.1 hj
    have hbefore := List.pairwise_iff_getElem.1 (h.order a) i j hi' hj' hij
    rw [hq] at hbefore
    exact hbefore.irrefl
  have h₁ := hlt hi hj
  have h₂ := hlt hj hi
  omega

/-! ## The transactions of a chain -/

theorem mem_placedFrom {env : Env} {b t : Nat} {es : List TransactionEntry} {p : Placed} :
    p ∈ placedFrom env b t es ↔ ∃ i e, es[i]? = some e ∧
      p = ⟨getTransactionHash env e.tx, ⟨b, UInt16.ofNat (t + i)⟩, e.tx.vout,
        e.mGlobalOutputIndexes⟩ := by
  induction es generalizing t with
  | nil =>
    constructor
    · intro h
      cases h
    · intro ⟨i, e, h, _⟩
      cases h
  | cons e rest ih =>
    unfold placedFrom
    rw [List.mem_cons, ih]
    constructor
    · intro h
      rcases h with rfl | ⟨i, e', hi, rfl⟩
      · exact ⟨0, e, rfl, rfl⟩
      · exact ⟨i + 1, e', hi, by rw [show t + (i + 1) = t + 1 + i by omega]⟩
    · intro ⟨i, e', hi, hp⟩
      cases i with
      | zero =>
        cases hi
        exact .inl hp
      | succ i => exact .inr ⟨i, e', hi, by rw [hp, show t + (i + 1) = t + 1 + i by omega]⟩

theorem mem_placedBlocks {env : Env} {b : Nat} {bs : List BlockEntry} {p : Placed} :
    p ∈ placedBlocks env b bs ↔ ∃ j x, bs[j]? = some x ∧ p ∈ placedFrom env (b + j) 0 x.transactions := by
  induction bs generalizing b with
  | nil =>
    constructor
    · intro h
      cases h
    · intro ⟨j, x, h, _⟩
      cases h
  | cons x rest ih =>
    unfold placedBlocks
    rw [List.mem_append, ih]
    constructor
    · intro h
      rcases h with h | ⟨j, x', hj, h⟩
      · exact ⟨0, x, rfl, h⟩
      · exact ⟨j + 1, x', hj, by rwa [show b + (j + 1) = b + 1 + j by omega]⟩
    · intro ⟨j, x', hj, h⟩
      cases j with
      | zero =>
        cases hj
        exact .inl h
      | succ j => exact .inr ⟨j, x', hj, by rwa [show b + (j + 1) = b + 1 + j by omega] at h⟩

theorem placedBlocks_append (env : Env) (b : Nat) (xs ys : List BlockEntry) :
    placedBlocks env b (xs ++ ys) = placedBlocks env b xs ++ placedBlocks env (b + xs.length) ys := by
  induction xs generalizing b with
  | nil => rfl
  | cons x rest ih =>
    rw [List.cons_append, placedBlocks, ih, placedBlocks, List.append_assoc, List.length_cons,
      show b + 1 + rest.length = b + (rest.length + 1) by omega]

/-- Flags do not matter to the index. -/
theorem placedBlocks_forgetFlags (env : Env) (b : Nat) (bs : List BlockEntry) :
    placedBlocks env b (forgetFlags bs) = placedBlocks env b bs := by
  have hfrom : ∀ (b t : Nat) (es : List TransactionEntry),
      placedFrom env b t (es.map TransactionEntry.forgetFlags) = placedFrom env b t es := by
    intro b t es
    induction es generalizing t with
    | nil => rfl
    | cons e rest ih => exact congrArg (_ :: ·) (ih (t + 1))
  induction bs generalizing b with
  | nil => rfl
  | cons x rest ih => exact congrArg₂ (· ++ ·) (hfrom b 0 x.transactions) (ih (b + 1))

theorem inOrder_placedFrom {env : Env} {b t : Nat} {es : List TransactionEntry} (hlen : t + es.length ≤ 65536) :
    (placedFrom env b t es).Pairwise fun p q => p.idx.Before q.idx := by
  induction es generalizing t with
  | nil => exact .nil
  | cons e rest ih =>
    rw [List.length_cons] at hlen
    refine List.pairwise_cons.2 ⟨fun q hq => ?_, ih (by omega)⟩
    obtain ⟨i, e', hi, rfl⟩ := mem_placedFrom.1 hq
    have hi' := (List.getElem?_eq_some_iff.1 hi).1
    right
    refine ⟨rfl, ?_⟩
    show UInt16.ofNat t < UInt16.ofNat (t + 1 + i)
    rw [UInt16.lt_iff_toNat_lt, UInt16.toNat_ofNat', UInt16.toNat_ofNat']
    omega

theorem inOrder_placedBlocks {env : Env} {b : Nat} {bs : List BlockEntry}
    (hfits : ∀ x ∈ bs, x.transactions.length ≤ 65536 ∧
      ∀ e ∈ x.transactions, e.tx.vout.length ≤ 65536) : InOrder (placedBlocks env b bs) := by
  constructor
  · induction bs generalizing b with
    | nil => exact .nil
    | cons x rest ih =>
      obtain ⟨hx, hrest⟩ := List.forall_mem_cons.1 hfits
      refine List.pairwise_append.2 ⟨inOrder_placedFrom (by omega), ih hrest, ?_⟩
      intro p hp q hq
      obtain ⟨i, e, _, rfl⟩ := mem_placedFrom.1 hp
      obtain ⟨j, x', _, hq⟩ := mem_placedBlocks.1 hq
      obtain ⟨i', e', _, rfl⟩ := mem_placedFrom.1 hq
      left
      show b < b + 1 + j
      omega
  · intro p hp
    obtain ⟨j, x, hj, hp⟩ := mem_placedBlocks.1 hp
    obtain ⟨i, e, hi, rfl⟩ := mem_placedFrom.1 hp
    exact (hfits x (List.mem_of_getElem? hj)).2 e (List.mem_of_getElem? hi)

/-! ## The functions that serve indexes -/

namespace Storage

/-- `get_tx_outputs_gindexs`; `none` where the source returns `false`. -/
def getTxOutputsGindexs (s : Storage) (txId : Hash) : Except Exn (Option (List Nat)) :=
  match s.mTransactions[txId]? with
  | none => .ok none
  | some idx =>
    match s.transactionByIndex idx with
    | .error e => .error e
    | .ok txe =>
      if txe.mGlobalOutputIndexes.isEmpty then .ok none else .ok (some txe.mGlobalOutputIndexes)

theorem getTxOutputsGindexs_eq_some {s : Storage} {txId : Hash} {gs : List Nat} :
    s.getTxOutputsGindexs txId = .ok (some gs) ↔
      ∃ idx, s.mTransactions[txId]? = some idx ∧ ∃ txe, s.transactionByIndex idx = .ok txe ∧
        gs = txe.mGlobalOutputIndexes ∧ txe.mGlobalOutputIndexes ≠ [] := by
  unfold getTxOutputsGindexs
  cases hi : s.mTransactions[txId]? with
  | none => simp
  | some idx =>
    cases hr : s.transactionByIndex idx with
    | error e => simp [hr]
    | ok txe =>
      simp only [Option.some.injEq, exists_eq_left', hr, Except.ok.injEq]
      by_cases h0 : txe.mGlobalOutputIndexes = []
      · simp [h0]
      · simp [h0, @eq_comm _ gs]

/-- What the checks of `scan_outputkeys_for_indexes` make of the output `o` of the
transaction `txe`. -/
def usableOutput (s : Storage) (now ringSize : Nat) (txe : TransactionEntry) (o : TxOut) :
    Option (PublicKey × Nat) :=
  match o.target with
  | .toKey key mixAttr =>
    if mixAttrAllows mixAttr ringSize && isTxSpendtimeUnlocked now s txe.tx.unlockTime then
      some (key, txe.mKeeperBlockHeight)
    else none
  | _ => none

/-- A ring's index is judged by the output that stands at its place. -/
theorem scanOutput_of_read {env : Env} {now ringSize : Nat} {s : Storage} {outs : AmountOuts}
    {i : UInt64} {idx : TransactionIndex} {k : UInt16} {txe : TransactionEntry} {o : TxOut}
    (hi : outs[i.toNat]? = some (idx, k)) (hread : s.transactionByIndex idx = .ok txe)
    (hfiled : s.mTransactions.contains (getTransactionHash env txe.tx) = true)
    (hout : txe.tx.vout[k.toNat]? = some o) :
    scanOutput env now s outs ringSize i = .ok (s.usableOutput now ringSize txe o) := by
  unfold scanOutput usableOutput
  simp only [hi, hread, hfiled, not_true_eq_false, if_false, hout]
  cases o.target with
  | toKey key mixAttr =>
    simp only
    split <;> rfl
  | _ => rfl

end Storage

end DarknetSpace
