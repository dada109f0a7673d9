import DarknetSpace.Format.Extra

/-!
# The scratchpad (`currency_format_utils.cpp`)

Every block appends an addendum to the scratchpad and xors each entry of it
into an older cell chosen by the entry itself. The cells to change are
collected first, as a patch, and applied in one pass, so a patch can also be
laid over a scratchpad that is not changed (an alternative chain's view).

`push_block_scratchpad_data` ignores whether the addendum could be built, while
`pop_block_scratchpad_data` gives up when it could not: the two are inverse
only on blocks whose addendum is complete.

`getScratchpadPatch` is the cells and what is xored into them, and
`applyScratchpadPatch` the pass. Two entries of one addendum may choose the same cell;
cells are counted below the length that the scratchpad has without the addendum, in both
directions.
-/

namespace DarknetSpace

/-- `std::map<uint64_t, crypto::hash>`: the cell and what to xor into it. -/
abbrev ScratchpadPatch := Map Nat Hash

/-- `get_tx_tree_hash(b)`. -/
def getTxTreeHash (env : Env) (b : Block) : Hash :=
  env.hashTxTree (getTransactionHash env b.minerTx :: b.txHashes)

/-- `reinterpret_cast<const uint64_t*>(&h)[0]`. -/
def firstWord (h : Hash) : Nat := h.toNat % 2 ^ 64

/-- The cell an entry is xored into, in a scratchpad that held `globalStart`
entries before it. -/
def patchCell (globalStart : Nat) (h : Hash) : Nat := firstWord h % globalStart

def patchXor (patch : ScratchpadPatch) (cell : Nat) (h : Hash) : ScratchpadPatch :=
  patch.insert cell (patch.getD cell 0 ^^^ h)

/-- `get_scratchpad_patch`, over the entries the block appended. -/
def getScratchpadPatch (globalStart : Nat) (entries : List Hash) (patch : ScratchpadPatch) :
    ScratchpadPatch :=
  if globalStart = 0 then patch
  else entries.foldl (fun p h => patchXor p (patchCell globalStart h) h) patch

/-- The coinbase outputs' part of the addendum: stops at the first output that
is not `txout_to_key`. -/
def addendumOuts (env : Env) (prevId : Hash) : List TxOut → Bool × List Hash
  | [] => (true, [])
  | o :: rest =>
    match o.target with
    | .toKey key _ =>
      let (ok, hs) := addendumOuts env prevId rest
      (ok, env.hashTogether prevId key :: hs)
    | _ => (false, [])

/-- `get_block_scratchpad_addendum`: the verdict, and the entries pushed before
it was reached. -/
def getBlockScratchpadAddendum (env : Env) (b : Block) : Except Exn (Bool × List Hash) := do
  let start := if getBlockHeight b ≠ 0 then [b.prevId] else []
  let (r, info) ← parseAndValidateTxExtra env b.minerTx.toTransactionPrefix
  if ¬ r then return (false, start)
  let (ok, outs) := addendumOuts env b.prevId b.minerTx.vout
  return (ok, start ++ [info.mTxPubKey, getTxTreeHash env b] ++ outs)

/-- `apply_scratchpad_patch`; every cell of a patch lies inside the scratchpad. -/
def applyScratchpadPatch (scratchpd : List Hash) (patch : ScratchpadPatch) : List Hash :=
  scratchpd.mapIdx fun i h => h ^^^ patch.getD i 0

/-- The four-argument `push_block_scratchpad_data`: it returns `true` whatever
the addendum's verdict is. -/
def pushBlockScratchpadPatch (env : Env) (globalStart : Nat) (b : Block)
    (scratchpd : List Hash) (patch : ScratchpadPatch) :
    Except Exn (List Hash × ScratchpadPatch) := do
  let (_, addendum) ← getBlockScratchpadAddendum env b
  return (scratchpd ++ addendum, getScratchpadPatch globalStart addendum patch)

/-- The two-argument `push_block_scratchpad_data`. -/
def pushBlockScratchpadData (env : Env) (b : Block) (scratchpd : List Hash) :
    Except Exn (List Hash) := do
  let (scratchpd, patch) ← pushBlockScratchpadPatch env scratchpd.length b scratchpd ∅
  return applyScratchpadPatch scratchpd patch

/-- `pop_block_scratchpad_data`. A scratchpad shorter than the addendum would
be patched outside its bounds. -/
def popBlockScratchpadData (env : Env) (b : Block) (scratchpd : List Hash) :
    Except Exn (Bool × List Hash) := do
  let (ok, addendum) ← getBlockScratchpadAddendum env b
  if ¬ ok then return (false, scratchpd)
  if scratchpd.length < addendum.length then throw .undefinedBehaviour
  let start := scratchpd.length - addendum.length
  let patch := getScratchpadPatch start addendum ∅
  return (true, (applyScratchpadPatch scratchpd patch).take start)

/-! ## Push and pop -/

@[simp] theorem length_applyScratchpadPatch (pad : List Hash) (patch : ScratchpadPatch) :
    (applyScratchpadPatch pad patch).length = pad.length := by
  simp [applyScratchpadPatch]

/-- A patch undoes itself. -/
theorem applyScratchpadPatch_self (pad : List Hash) (patch : ScratchpadPatch) :
    applyScratchpadPatch (applyScratchpadPatch pad patch) patch = pad := by
  apply List.ext_getElem?
  intro i
  simp only [applyScratchpadPatch, List.getElem?_mapIdx]
  cases pad[i]? with
  | none => rfl
  | some h =>
    show some (h ^^^ patch.getD i 0 ^^^ patch.getD i 0) = some h
    rw [BitVec.xor_assoc, BitVec.xor_self, BitVec.xor_zero]

theorem pushBlockScratchpadData_ok {env : Env} {b : Block} {pad pad' : List Hash}
    (h : pushBlockScratchpadData env b pad = .ok pad') :
    ∃ r addendum, getBlockScratchpadAddendum env b = .ok (r, addendum) ∧
      pad' = applyScratchpadPatch (pad ++ addendum) (getScratchpadPatch pad.length addendum ∅) := by
  unfold pushBlockScratchpadData pushBlockScratchpadPatch at h
  cases ha : getBlockScratchpadAddendum env b with
  | error e => rw [ha] at h; cases h
  | ok p =>
    rw [ha] at h
    cases h
    exact ⟨p.1, p.2, rfl, rfl⟩

/-- What popping makes of the scratchpad the block was pushed on: the old one
when the addendum was complete, and no change when it was not. -/
theorem popBlockScratchpadData_push {env : Env} {b : Block} {pad pad' : List Hash}
    (h : pushBlockScratchpadData env b pad = .ok pad') :
    popBlockScratchpadData env b pad' = .ok (true, pad) ∨
      popBlockScratchpadData env b pad' = .ok (false, pad') := by
  obtain ⟨r, addendum, ha, rfl⟩ := pushBlockScratchpadData_ok h
  unfold popBlockScratchpadData
  rw [ha]
  cases r with
  | false => exact .inr rfl
  | true =>
    left
    have hlen : (applyScratchpadPatch (pad ++ addendum)
        (getScratchpadPatch pad.length addendum ∅)).length - addendum.length = pad.length := by
      rw [length_applyScratchpadPatch, List.length_append]
      omega
    have hge : ¬ (applyScratchpadPatch (pad ++ addendum)
        (getScratchpadPatch pad.length addendum ∅)).length < addendum.length := by
      rw [length_applyScratchpadPatch, List.length_append]
      omega
    simp only [bind, Except.bind, not_true_eq_false, if_false, hge, hlen, pure, Except.pure,
      applyScratchpadPatch_self, List.take_left']

end DarknetSpace
