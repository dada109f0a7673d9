import DarknetSpace.Core.BlockTxs

/-!
# The alias table of the pool

`m_aliases_to_txid` should list the alias of every pool transaction. `add_tx`
gets the alias as an argument and files it on one of its two storing branches,
and the callers that give a transaction back leave the argument empty. So the
table is exact as long as neither happens to a transaction with an alias.

`AliasesKept` is the invariant and `AliasSafe` says, of a call and the state before it,
that neither of the two happens. The step lemmas follow the callers: a transaction from
the network, a block that takes transactions, a block that is popped, the cleanup.

Main result: `pool_aliases_exact`, for every run whose calls are all safe. In the runs
at the end a transaction with an alias comes in, once before and once after the branch
that does not file it.
-/

namespace DarknetSpace

open StateExn TxMemoryPool

/-! ## What exact means -/

/-- The alias a pool transaction carries. -/
def aliasOf (env : Env) (tx : Transaction) : Option Blob :=
  (txAlias env tx.toTransactionPrefix).map (·.mAlias)

/-- The pool's map from aliases to ids names just the transactions with an alias. -/
structure AliasesExact (env : Env) (p : TxMemoryPool) : Prop where
  registered : ∀ (id : Hash) txd name, p.mTransactions[id]? = some txd →
    aliasOf env txd.tx = some name → p.mAliasesToTxid[name]? = some id
  filed : ∀ (name : Blob) (id : Hash), p.mAliasesToTxid[name]? = some id →
    ∃ txd, p.mTransactions[id]? = some txd ∧ aliasOf env txd.tx = some name

theorem AliasesExact.unique {env : Env} {p : TxMemoryPool} (h : AliasesExact env p) {id id' : Hash}
    {txd txd' : TxDetails} {name : Blob} (hm : p.mTransactions[id]? = some txd)
    (hm' : p.mTransactions[id']? = some txd') (ha : aliasOf env txd.tx = some name)
    (ha' : aliasOf env txd'.tx = some name) : id = id' :=
  Option.some.inj ((h.registered id txd name hm ha).symm.trans (h.registered id' txd' name hm' ha'))

/-- The table is exact, and the null hash, which `find_alias` returns for
nothing, is not one of its values. -/
structure AliasesKept (env : Env) (p : TxMemoryPool) : Prop extends AliasesExact env p where
  nonNull : ∀ name : Blob, p.mAliasesToTxid[name]? ≠ some nullHash

/-- An empty pool has no aliases. -/
theorem aliasesKept_empty (env : Env) : AliasesKept env TxMemoryPool.empty := by
  have hids : ∀ id : Hash, (∅ : Map Hash TxDetails)[id]? = none :=
    fun _ => Std.ExtTreeMap.getElem?_empty
  have hnames : ∀ name : Blob, (∅ : Map Blob Hash)[name]? = none :=
    fun _ => Std.ExtTreeMap.getElem?_empty
  refine ⟨⟨fun id txd name hm _ => ?_, fun name id hm => ?_⟩, fun name hm => ?_⟩
  · cases (hids id).symm.trans hm
  · cases (hnames name).symm.trans hm
  · cases (hnames name).symm.trans hm

/-! ## Taking a transaction -/

section

variable {env : Env} {p p' : TxMemoryPool} {id : Hash} {txd : TxDetails}

/-- The scan by value finds the one pair there is. -/
theorem removeAliasTxPair_getElem?
    (hone : ∀ a b : Blob, p.mAliasesToTxid[a]? = some id → p.mAliasesToTxid[b]? = some id → a = b)
    (name : Blob) (i : Hash) :
    (p.removeAliasTxPair id).mAliasesToTxid[name]? = some i ↔
      p.mAliasesToTxid[name]? = some i ∧ i ≠ id := by
  unfold TxMemoryPool.removeAliasTxPair
  split
  · next hnone =>
    rw [List.find?_eq_none] at hnone
    constructor
    · intro hi
      refine ⟨hi, fun heq => ?_⟩
      exact hnone (name, i) (Std.ExtTreeMap.mem_toList_iff_getElem?_eq_some.2 hi)
        (by rw [heq]; exact beq_self_eq_true id)
    · intro hi
      exact hi.1
  · next a v hfound =>
    have hmatch := List.find?_some hfound
    have hv : v = id := eq_of_beq hmatch
    have ha := Std.ExtTreeMap.mem_toList_iff_getElem?_eq_some.1 (List.mem_of_find?_eq_some hfound)
    rw [hv] at ha
    show (p.mAliasesToTxid.erase a)[name]? = some i ↔ _
    rw [Std.ExtTreeMap.getElem?_erase]
    by_cases hname : a = name
    · subst hname
      rw [if_pos Std.ReflCmp.compare_self, ha]
      constructor
      · intro hc
        cases hc
      · intro ⟨hc, hne⟩
        exact absurd (Option.some.inj hc).symm hne
    · rw [if_neg fun hc => hname (Std.LawfulEqCmp.eq_of_compare hc)]
      constructor
      · intro hi
        refine ⟨hi, fun heq => ?_⟩
        rw [heq] at hi
        exact hname (hone a name ha hi)
      · intro hi
        exact hi.1

/-- Taking a transaction takes its alias. -/
theorem takeTx_aliases (ht : p.takeTx env id = some (txd, p')) :
    p'.mAliasesToTxid = (p.removeAliasTxPair id).mAliasesToTxid := by
  unfold TxMemoryPool.takeTx at ht
  split at ht
  · cases ht
  · obtain ⟨-, rfl⟩ := Prod.mk.inj (Option.some.inj ht)
    unfold TxMemoryPool.removeAliasTxPair
    simp only
    cases p.mAliasesToTxid.toList.find? (·.2 == id) <;> rfl

/-- Taking a transaction keeps the rest. -/
theorem AliasesKept.takeTx (h : AliasesKept env p) (ht : p.takeTx env id = some (txd, p')) :
    AliasesKept env p' := by
  obtain ⟨hm, htxs⟩ := takeTx_transactions ht
  have halias := takeTx_aliases ht
  -- a pair of `id` bears the alias of the transaction filed there
  have hone : ∀ a b : Blob, p.mAliasesToTxid[a]? = some id → p.mAliasesToTxid[b]? = some id →
      a = b := by
    intro a b ha hb
    obtain ⟨txda, hma, haa⟩ := h.filed a id ha
    obtain ⟨txdb, hmb, hab⟩ := h.filed b id hb
    cases hma.symm.trans hmb
    exact Option.some.inj (haa.symm.trans hab)
  have hread : ∀ i : Hash, p'.mTransactions[i]? = if compare id i = .eq then none
      else p.mTransactions[i]? := by
    intro i
    rw [htxs, Std.ExtTreeMap.getElem?_erase]
  refine ⟨⟨fun i txd' name hi ha => ?_, fun name i hi => ?_⟩, fun name hi => ?_⟩
  · rw [hread] at hi
    split at hi
    · cases hi
    · next hne =>
      rw [halias, removeAliasTxPair_getElem? hone]
      refine ⟨h.registered i txd' name hi ha, fun heq => hne ?_⟩
      rw [heq]
      exact Std.ReflCmp.compare_self
  · rw [halias, removeAliasTxPair_getElem? hone] at hi
    rw [hread, if_neg fun hc => hi.2 (Std.LawfulEqCmp.eq_of_compare hc).symm]
    exact h.filed name i hi.1
  · rw [halias, removeAliasTxPair_getElem? hone] at hi
    exact h.nonNull name hi.1

/-! ## Filing one -/

theorem insertTx_aliases (p : TxMemoryPool) (id : Hash) (txd : TxDetails)
    (tvc : TxVerificationContext) :
    (p.insertTx id txd tvc).2.mAliasesToTxid = p.mAliasesToTxid := by
  unfold TxMemoryPool.insertTx
  split <;> rfl

theorem insertTx_transactions (hnew : p.mTransactions.contains id = false) (txd : TxDetails)
    (tvc : TxVerificationContext) :
    (p.insertTx id txd tvc).2.mTransactions = p.mTransactions.insert id txd := by
  unfold TxMemoryPool.insertTx
  rw [if_neg (by rw [hnew]; exact Bool.false_ne_true)]

theorem getElem?_of_new (hnew : p.mTransactions.contains id = false) :
    p.mTransactions[id]? = none := by
  rw [Std.ExtTreeMap.contains_eq_isSome_getElem?] at hnew
  exact Option.not_isSome_iff_eq_none.1 (Bool.eq_false_iff.1 hnew)

/-- A transaction without an alias may come in by any branch. -/
theorem AliasesKept.insertPlain (h : AliasesKept env p) (hplain : aliasOf env txd.tx = none)
    (tvc : TxVerificationContext) : AliasesKept env (p.insertTx id txd tvc).2 := by
  cases hc : p.mTransactions.contains id with
  | true =>
    unfold TxMemoryPool.insertTx
    rw [if_pos hc]
    exact h
  | false =>
    have htxs := insertTx_transactions hc txd tvc
    have hal := insertTx_aliases p id txd tvc
    refine ⟨⟨fun i txd' name hi ha => ?_, fun name i hi => ?_⟩, fun name => ?_⟩
    · rw [htxs, Std.ExtTreeMap.getElem?_insert] at hi
      rw [hal]
      split at hi
      · cases hi
        cases hplain.symm.trans ha
      · exact h.registered i txd' name hi ha
    · rw [hal] at hi
      obtain ⟨txd', hm, ha⟩ := h.filed name i hi
      refine ⟨txd', ?_, ha⟩
      rw [htxs, Std.ExtTreeMap.getElem?_insert, if_neg, hm]
      intro heq
      rw [← Std.LawfulEqCmp.eq_of_compare heq, getElem?_of_new hc] at hm
      cases hm
    · rw [hal]
      exact h.nonNull name

/-- One with an alias is filed with its pair. -/
theorem AliasesKept.insertNamed (h : AliasesKept env p) {name : Blob}
    (hname : aliasOf env txd.tx = some name) (hne : name ≠ [])
    (hfree : p.findAlias name = nullHash) (hid : id ≠ nullHash)
    (hnew : p.mTransactions.contains id = false) (tvc : TxVerificationContext) :
    AliasesKept env ((p.addAliasTxPair name id).2.insertTx id txd tvc).2 := by
  have hpair : (p.addAliasTxPair name id).2 =
      { p with mAliasesToTxid := p.mAliasesToTxid.insert name id } := by
    unfold TxMemoryPool.addAliasTxPair
    rw [if_neg hne, if_neg (not_not.2 hfree)]
  -- no pair with the null hash, so the name is free for good
  have hnone : p.mAliasesToTxid[name]? = none := by
    unfold TxMemoryPool.findAlias at hfree
    rw [if_neg hne, Std.ExtTreeMap.getD_eq_getD_getElem?] at hfree
    cases hn : p.mAliasesToTxid[name]? with
    | none => rfl
    | some i =>
      rw [hn] at hfree
      have hi : i = nullHash := hfree
      rw [hi] at hn
      exact absurd hn (h.nonNull name)
  rw [hpair]
  have htxs := insertTx_transactions (p := { p with mAliasesToTxid := p.mAliasesToTxid.insert name id })
    hnew txd tvc
  have hal := insertTx_aliases { p with mAliasesToTxid := p.mAliasesToTxid.insert name id } id txd tvc
  refine ⟨⟨fun i txd' name' hi ha => ?_, fun name' i hi => ?_⟩, fun name' hi => ?_⟩
  · rw [htxs, Std.ExtTreeMap.getElem?_insert] at hi
    rw [hal, Std.ExtTreeMap.getElem?_insert]
    split at hi
    · next heq =>
      cases hi
      cases hname.symm.trans ha
      rw [if_pos Std.ReflCmp.compare_self, Std.LawfulEqCmp.eq_of_compare heq]
    · have hr := h.registered i txd' name' hi ha
      rw [if_neg, hr]
      intro heq
      rw [← Std.LawfulEqCmp.eq_of_compare heq, hnone] at hr
      cases hr
  · rw [hal, Std.ExtTreeMap.getElem?_insert] at hi
    rw [htxs]
    split at hi
    · next heq =>
      cases hi
      refine ⟨txd, Std.ExtTreeMap.getElem?_insert_self, ?_⟩
      rw [← Std.LawfulEqCmp.eq_of_compare heq]
      exact hname
    · obtain ⟨txd', hm, ha⟩ := h.filed name' i hi
      refine ⟨txd', ?_, ha⟩
      rw [Std.ExtTreeMap.getElem?_insert, if_neg, hm]
      intro heq
      rw [← Std.LawfulEqCmp.eq_of_compare heq, getElem?_of_new hnew] at hm
      cases hm
  · rw [hal, Std.ExtTreeMap.getElem?_insert] at hi
    split at hi
    · exact hid (Option.some.inj hi)
    · exact h.nonNull name' hi

/-- A transaction without an alias, given with the empty name. -/
theorem AliasesKept.addPlain (h : AliasesKept env p) {now : Nat} {chain : Storage}
    {tx : Transaction} {kept : Bool} {v : Verdict} (hplain : aliasOf env tx = none)
    (ha : p.addTx env now chain tx kept [] = .ok (v, p')) : AliasesKept env p' := by
  obtain ⟨-, rfl⟩ | ⟨i, o, -, ⟨-, -, hins⟩ | ⟨-, -, _, -, hins⟩⟩ := addTx_cases ha
  · exact h
  · obtain ⟨-, rfl⟩ := Prod.mk.inj hins
    have hdrop : p.dropAliasRival env [] = p := by
      unfold TxMemoryPool.dropAliasRival TxMemoryPool.findAlias
      rw [if_pos rfl, if_pos rfl]
    rw [hdrop]
    exact h.insertPlain hplain _
  · obtain ⟨-, rfl⟩ := Prod.mk.inj hins
    have hpair : (p.addAliasTxPair [] (getTransactionHash env tx)).2 = p := by
      unfold TxMemoryPool.addAliasTxPair
      rw [if_pos rfl]
    rw [hpair]
    exact h.insertPlain hplain _

/-- The alias of a transaction is what is in its extra field, unless it is empty. -/
theorem aliasOf_eq {tx : Transaction} {ei : TxExtraInfo}
    (h : parseAndValidateTxExtra env tx.toTransactionPrefix = .ok (true, ei)) :
    aliasOf env tx = if ei.mAlias.mAlias = [] then none else some ei.mAlias.mAlias := by
  unfold aliasOf txAlias
  rw [h]
  simp only
  split <;> rfl

end

/-! ## Runs -/

/-- What a run does to the pool. -/
inductive PoolAction where
  | incomingTx (blob : Blob) (kept : Bool)
  | takeTx (id : Hash)
  | push (bl : Block)
  | pop
  | removeStuck (order : List Hash)

/-- What one action does to the node. -/
def poolAction (env : Env) (now : Nat) : PoolAction → NodeM PUnit
  | .incomingTx blob kept => do
    let _ ← handleIncomingTx env now blob kept
    pure ⟨⟩
  | .takeTx id => modify fun n => { n with pool := (n.pool.takeTx env id).elim n.pool (·.2) }
  | .push bl => do
    let _ ← handleBlockToMainChain env now bl (getBlockHash env bl)
    pure ⟨⟩
  | .pop => do
    let _ ← popBlockFromBlockchain env now
    pure ⟨⟩
  | .removeStuck order => modify fun n =>
    { n with pool := n.pool.removeStuckTransactions env now order }

/-- The states of every run whose steps all meet `C` where they are taken. -/
inductive ActionRun (env : Env) (C : Nat → Node → PoolAction → Prop) : Node → Prop where
  | start (checkpoints : Checkpoints) : ActionRun env C (Node.initial checkpoints)
  | step {n n' : Node} {now : Nat} {a : PoolAction} (hn : ActionRun env C n) (hok : C now n a)
      (h : EndsIn (poolAction env now a n) n') : ActionRun env C n'

/-- No transaction with an alias is stored without it: not as a block's
transaction whose inputs fail, not by a push that does not go through, and not
by a pop. -/
def AliasSafe (env : Env) (now : Nat) (n : Node) : PoolAction → Prop
  | .incomingTx blob kept => ∀ tx, env.parseTx blob = some tx → aliasOf env tx ≠ none →
    ¬ Known n (getTransactionHash env tx) → getTransactionHash env tx ≠ nullHash ∧
      (kept = true → n.chain.checkTxInputsWithId env now tx ≠ .ok none)
  | .push bl => (∃ n', handleBlockToMainChain env now bl (getBlockHash env bl) n = .ok .added n') ∨
    ∀ id ∈ bl.txHashes, ∀ txd, n.pool.mTransactions[id]? = some txd → aliasOf env txd.tx = none
  | .pop => ∀ bei, n.chain.mBlocks.getLast? = some bei → ∀ id ∈ purgedIds env bei,
    ReadsOnly (fun tx => aliasOf env tx = none) n.chain id
  | .takeTx _ => True
  | .removeStuck _ => True

section

variable {env : Env} {now : Nat} {n : Node}

/-- A transaction from the network, if the action is safe. -/
theorem AliasesKept.handleIncomingTx (h : AliasesKept env n.pool) {blob : Blob} {kept : Bool}
    (hok : AliasSafe env now n (.incomingTx blob kept)) :
    AliasesKept env (stateOf (handleIncomingTx env now blob kept n)).pool := by
  unfold DarknetSpace.handleIncomingTx
  rw [bind_of_ok (get_apply n)]
  split
  · exact h
  · cases hparse : env.parseTx blob with
    | none => exact h
    | some tx =>
      simp only
      split
      · exact h
      · cases hextra : parseAndValidateTxExtra env tx.toTransactionPrefix with
        | error e => exact h
        | ok r =>
          obtain ⟨ok, ei⟩ := r
          cases ok with
          | false => exact h
          | true =>
            have halias := aliasOf_eq hextra
            show AliasesKept env (stateOf (addNewTx env now tx kept ei.mAlias.mAlias n)).pool
            unfold addNewTx
            simp only
            split
            · exact h
            · next hunknown =>
              rw [Bool.or_eq_true] at hunknown
              split
              · next v pool ha =>
                by_cases hname : ei.mAlias.mAlias = []
                · rw [if_pos hname] at halias
                  rw [hname] at ha
                  exact h.addPlain halias ha
                · rw [if_neg hname] at halias
                  obtain ⟨hid, hinputs⟩ := hok tx hparse (by rw [halias]; exact Option.some_ne_none _)
                    hunknown
                  have hnew : n.pool.mTransactions.contains (getTransactionHash env tx) = false :=
                    Bool.eq_false_iff.2 fun hc => hunknown (.inl hc)
                  obtain ⟨-, rfl⟩ | ⟨i, o, -, ⟨hkept, hnone, -⟩ | ⟨-, hpair, _, -, hins⟩⟩ := addTx_cases ha
                  · exact h
                  · exact absurd hnone (hinputs hkept)
                  · obtain ⟨-, rfl⟩ := Prod.mk.inj hins
                    exact h.insertNamed halias hname ((addAliasTxPair_fst _ _ _).1 hpair) hid hnew _
              · exact h

theorem AliasesKept.takesTxs {processed : Nat} {ids : List Hash} {n' : Node} {taken : List TakenTx}
    (h : AliasesKept env n.pool) (ht : TxsTaken env now processed ids n taken n') :
    AliasesKept env n'.pool := by
  induction ht with
  | nil => exact h
  | cons take _ _ _ ih => exact ih (h.takeTx take)

/-- A block on the main chain, if the action is safe. -/
theorem AliasesKept.handleBlockToMainChain (h : AliasesKept env n.pool) {bl : Block}
    (hok : AliasSafe env now n (.push bl)) :
    AliasesKept env (stateOf (handleBlockToMainChain env now bl (getBlockHash env bl) n)).pool := by
  rcases hok with ⟨n', hadded⟩ | hplain
  · obtain ⟨c⟩ := handleBlockToMainChain_added hadded
    have hpool := congrArg Node.pool c.node
    have htaken := AliasesKept.takesTxs (n := { n with chain := c.s₁ }) h c.txs
    rw [hadded]
    show AliasesKept env n'.pool
    rw [hpool]
    exact htaken
  · -- whatever is given back was listed, and has no alias
    have hkeeps : PushKeeps env now bl
        (fun id txd => id ∈ bl.txHashes → aliasOf env txd.tx = none) (AliasesKept env) := by
      refine ⟨fun _ ht hQ => hQ.takeTx ht, fun {p p₁ p' id txd zone chain v} hid hp ht ha hQ => ?_⟩
      refine (hQ.takeTx ht).addPlain ?_ ha
      have htxd := hp id txd (takeTx_transactions ht).1 hid
      unfold aliasOf at htxd ⊢
      rw [prunedTx_toPrefix]
      exact htxd
    exact hkeeps.handleBlockToMainChain _ (fun id txd hm hid => hplain id hid txd hm) h

theorem AliasesKept.popBlock (h : AliasesKept env n.pool) (hok : AliasSafe env now n .pop) :
    AliasesKept env (stateOf (popBlockFromBlockchain env now n)).pool :=
  popBlock_pool (R := fun tx => aliasOf env tx = none) (fun hplain ha hQ => hQ.addPlain hplain ha)
    hok h

/-- Dropping old transactions. -/
theorem AliasesKept.removeStuck {p : TxMemoryPool} (h : AliasesKept env p) (order : List Hash) :
    AliasesKept env (p.removeStuckTransactions env now order) := by
  unfold TxMemoryPool.removeStuckTransactions
  induction order generalizing p with
  | nil => exact h
  | cons id rest ih =>
    refine ih ?_
    obtain hsame | ⟨txd, ht⟩ := removeIfStuck_cases env now p id
    · rw [hsame]
      exact h
    · exact h.takeTx ht

/-- What an action returns does not matter for the state. -/
theorem stateOf_discard {α : Type} (x : NodeM α) (n : Node) :
    stateOf ((do let _ ← x; pure ⟨⟩ : NodeM PUnit) n) = stateOf (x n) := by
  cases hr : x n with
  | ok a m =>
    rw [bind_of_ok hr]
    rfl
  | error e m =>
    rw [bind_of_error hr]
    rfl

/-- One step. -/
theorem AliasesKept.poolAction (h : AliasesKept env n.pool) {a : PoolAction}
    (hok : AliasSafe env now n a) : AliasesKept env (stateOf (poolAction env now a n)).pool := by
  cases a with
  | incomingTx blob kept =>
    show AliasesKept env (stateOf ((do let _ ← _; pure ⟨⟩ : NodeM PUnit) n)).pool
    rw [stateOf_discard]
    exact h.handleIncomingTx hok
  | takeTx id =>
    show AliasesKept env ((n.pool.takeTx env id).elim n.pool (·.2))
    cases ht : n.pool.takeTx env id with
    | none => exact h
    | some r => exact h.takeTx ht
  | push bl =>
    show AliasesKept env (stateOf ((do let _ ← _; pure ⟨⟩ : NodeM PUnit) n)).pool
    rw [stateOf_discard]
    exact h.handleBlockToMainChain hok
  | pop =>
    show AliasesKept env (stateOf ((do let _ ← _; pure ⟨⟩ : NodeM PUnit) n)).pool
    rw [stateOf_discard]
    exact h.popBlock hok
  | removeStuck order => exact h.removeStuck order

end

/-- In every run of such steps the alias table of the pool is exact. -/
theorem pool_aliases_exact {env : Env} {n : Node} (hn : ActionRun env (AliasSafe env) n) :
    AliasesExact env n.pool ∧
      ∀ (id id' : Hash) txd txd' name, n.pool.mTransactions[id]? = some txd →
        n.pool.mTransactions[id']? = some txd' → aliasOf env txd.tx = some name →
        aliasOf env txd'.tx = some name → id = id' := by
  have hkept : AliasesKept env n.pool := by
    induction hn with
    | start checkpoints => exact aliasesKept_empty env
    | step _ hok hends ih =>
      rw [hends.eq_stateOf]
      exact ih.poolAction hok
  exact ⟨hkept.toAliasesExact, fun id id' txd txd' name hm hm' ha ha' =>
    hkept.toAliasesExact.unique hm hm' ha ha'⟩

/-- A list of actions, one after another; `none` when one of them has no
successor. -/
def runActions (env : Env) (now : Nat) : List PoolAction → Node → Option Node
  | [], n => some n
  | a :: rest, n =>
    match poolAction env now a n with
    | .ok _ n' => runActions env now rest n'
    | .error .indexOverflow n' => runActions env now rest n'
    | .error _ _ => none

/-- Actions one by one make a run. -/
theorem ActionRun.runActions {env : Env} {C : Nat → Node → PoolAction → Prop} {now : Nat}
    {as : List PoolAction} {n n' : Node} (hn : ActionRun env C n)
    (hok : ∀ a ∈ as, ∀ n, C now n a) (h : runActions env now as n = some n') :
    ActionRun env C n' := by
  induction as generalizing n with
  | nil =>
    cases h
    exact hn
  | cons a rest ih =>
    obtain ⟨ha, hrest⟩ := List.forall_mem_cons.1 hok
    unfold DarknetSpace.runActions at h
    split at h
    · next r n₁ hr => exact ih (.step hn (ha n) (.inl ⟨r, hr⟩)) hrest h
    · next n₁ hr => exact ih (.step hn (ha n) (.inr hr)) hrest h
    · cases h

namespace Devnet

/-- A line of blocks, each with nothing but its coinbase. -/
def pushLine (length : Nat) : List PoolAction :=
  .push genesis :: (List.range length).map fun k => .push (mainBlock (k + 1))

/-- Blocks without aliases are safe to push. -/
theorem aliasSafe_pushLine (length : Nat) :
    ∀ a ∈ pushLine length, ∀ n, AliasSafe env now n a := by
  have hempty : ∀ bl : Block, bl.txHashes = [] → ∀ n, AliasSafe env now n (.push bl) := by
    intro bl hbl n
    refine .inr fun id hid => ?_
    rw [hbl] at hid
    cases hid
  intro a ha
  rcases List.mem_cons.1 ha with rfl | ha
  · exact hempty _ rfl
  · obtain ⟨k, -, rfl⟩ := List.mem_map.1 ha
    exact hempty _ rfl

/-- The transaction that registers an alias, from a block or from the network. -/
def aliasBlob : Blob := [9, 0, 1, 0] ++ aliasExtra

/-- A transaction that registers an alias. -/
def aliasSpend : Transaction := spend 9 0 1 0 aliasExtra

/-- The alias `a`. -/
def aliasA : Blob := [97]

/-- The node after some actions. -/
def afterActions (as : List PoolAction) : Node :=
  (runActions env now as (Node.initial ∅)).getD (Node.initial ∅)

theorem runActions_eq {as : List PoolAction}
    (h : (runActions env now as (Node.initial ∅)).isSome = true) :
    runActions env now as (Node.initial ∅) = some (afterActions as) := by
  obtain ⟨n, hn⟩ := Option.isSome_iff_exists.1 h
  rw [afterActions, hn]
  rfl

/-- Its inputs fail where its output is still locked. -/
def keptEarly : List PoolAction := pushLine 1 ++ [.incomingTx aliasBlob true]

/-- The transaction comes once its input can be spent. -/
def sentInTime : List PoolAction := pushLine 59 ++ [.incomingTx aliasBlob false]

end Devnet

/-- A block's transaction whose inputs fail is in the pool with an alias that
the table does not have. -/
theorem kept_tx_without_alias :
    ∃ n, ActionRun Devnet.env (fun _ _ _ => True) n ∧ ¬ AliasesExact Devnet.env n.pool := by
  have heval : (runActions Devnet.env Devnet.now Devnet.keptEarly (Node.initial ∅)).isSome = true ∧
      ((Devnet.afterActions Devnet.keptEarly).pool.mTransactions[Devnet.spendId 9]?).map (·.tx) =
        some Devnet.aliasSpend ∧
      aliasOf Devnet.env Devnet.aliasSpend = some Devnet.aliasA ∧
      (Devnet.afterActions Devnet.keptEarly).pool.mAliasesToTxid[Devnet.aliasA]? = none := by decide +kernel
  obtain ⟨hrun, htx, halias, hnone⟩ := heval
  obtain ⟨txd, hm, htxd⟩ := Option.map_eq_some_iff.1 htx
  refine ⟨_, (ActionRun.start ∅).runActions (fun _ _ _ => trivial) (Devnet.runActions_eq hrun), ?_⟩
  intro h
  have hreg := h.registered (Devnet.spendId 9) txd Devnet.aliasA hm (by rw [htxd]; exact halias)
  cases hnone.symm.trans hreg

/-- From the network, with good inputs, it is listed. -/
theorem pool_aliases_exact_sent :
    ∃ n, ActionRun Devnet.env (AliasSafe Devnet.env) n ∧
      n.pool.mAliasesToTxid[Devnet.aliasA]? = some (Devnet.spendId 9) ∧ AliasesExact Devnet.env n.pool := by
  have heval : (runActions Devnet.env Devnet.now Devnet.sentInTime (Node.initial ∅)).isSome = true ∧
      (Devnet.afterActions Devnet.sentInTime).pool.mAliasesToTxid[Devnet.aliasA]? = some (Devnet.spendId 9) ∧
      Devnet.env.parseTx Devnet.aliasBlob = some Devnet.aliasSpend ∧
      getTransactionHash Devnet.env Devnet.aliasSpend ≠ nullHash := by decide +kernel
  obtain ⟨hrun, hlisted, hparse, hid⟩ := heval
  have hn := (ActionRun.start ∅).runActions (C := AliasSafe Devnet.env) (fun a ha => by
    rcases List.mem_append.1 ha with ha | ha
    · exact Devnet.aliasSafe_pushLine 59 a ha
    · intro n
      rw [List.mem_singleton.1 ha]
      intro tx htx _ _
      cases hparse.symm.trans htx
      exact ⟨hid, fun hc => absurd hc Bool.false_ne_true⟩) (Devnet.runActions_eq hrun)
  exact ⟨_, hn, hlisted, (pool_aliases_exact hn).1⟩

end DarknetSpace
