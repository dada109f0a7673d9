import DarknetSpace.Core.AltBranch
import DarknetSpace.Format.Blobsize

/-!
# A main chain of any length

Blocks with nothing but a coinbase, one every `DIFFICULTY_TARGET` seconds, keep
the difficulty at one, pass every check and can go on for as long as the
heights fit. This file builds such a chain, because some of the network's rules
change at heights no evaluation gets to.

`Steady` is what such a line asks of an environment: hashes that tell blocks apart, a
proof of work that always does, and no donations voted. `FarLine.At` describes the node
at a height in full, and `next` is the step: one more bare block is accepted and leaves
the node at the next height. So `exists_reachable` gives, for every height, a node that
has got there by its own calls. The schedule of rewards and of the size limit is
computed along, since the coinbase has to pay it.
-/

namespace DarknetSpace

open StateExn

/-! ## A bare block -/

/-- A block with nothing but a coinbase is added when its checks pass. -/
theorem handleBlockToMainChain_bare {env : Env} {now : Nat} {bl : Block} {n : Node}
    {info : TxExtraInfo} {base donation : UInt64}
    (hsync : n.chain.mBlocksIndex.length = n.chain.mBlocks.length)
    (hhead : checkBlockHeader env now n.chain bl = none)
    (hform : checkBlockForm (n.chain.setCheckpointZone n.chain.mBlocks.length) bl
      (getBlockHash env bl) n.chain.mBlocks.length = true)
    (hempty : bl.txHashes = [])
    (hextra : parseAndValidateTxExtra env bl.minerTx.toTransactionPrefix = .ok (true, info))
    (halias : info.mAlias.mAlias = [])
    (hnew : n.chain.mTransactions.contains (getTransactionHash env bl.minerTx) = false)
    (hreward : validateMinerTransaction env n.chain.mBlocks bl (cumulativeBlockSize env bl []) 0
      (alreadyGeneratedCoins n.chain.mBlocks) = .ok (some (base, donation)))
    (hfresh : getBlockHash env bl ∉ n.chain.mBlocksIndex) :
    ∃ n', handleBlockToMainChain env now bl (getBlockHash env bl) n = .ok .added n' := by
  obtain ⟨pad, hpad⟩ := pushBlockScratchpadData_of_parse hextra n.chain.mScratchpad
  -- the form check has seen that the coinbase has one input, of the kind `txin_gen`
  have hvin : ∃ g, bl.minerTx.vin = [.gen g] := by
    unfold checkBlockForm prevalidateMinerTransaction at hform
    rw [Bool.and_eq_true] at hform
    have hpre := hform.2
    split at hpre
    · next g hv => exact ⟨g, hv⟩
    · cases hpre
  obtain ⟨g, hvin⟩ := hvin
  have hadd : addTransactionFromBlock env bl.minerTx (getTransactionHash env bl.minerTx)
      n.chain.mBlocks.length 0 (n.chain.setCheckpointZone n.chain.mBlocks.length) =
        .ok (some (recordedEntry bl.minerTx ⟨n.chain.mBlocks.length, 0⟩ n.chain.mOutputs))
          { n.chain.setCheckpointZone n.chain.mBlocks.length with
            mTransactions := n.chain.mTransactions.insert (getTransactionHash env bl.minerTx)
              ⟨n.chain.mBlocks.length, 0⟩
            mOutputs := (pushOutputs ⟨n.chain.mBlocks.length, 0⟩ 0 bl.minerTx.vout
              n.chain.mOutputs).1 } := by
    have hproc : processBlockchainTxExtra env bl.minerTx
        (n.chain.setCheckpointZone n.chain.mBlocks.length) =
          .ok true (n.chain.setCheckpointZone n.chain.mBlocks.length) := by
      unfold processBlockchainTxExtra
      rw [hextra]
      exact if_pos halias
    have hin : addTransactionInputs env bl.minerTx.vin
        (n.chain.setCheckpointZone n.chain.mBlocks.length) =
          .ok true (n.chain.setCheckpointZone n.chain.mBlocks.length) := by
      rw [hvin]
      rfl
    have hold : ¬ (n.chain.setCheckpointZone n.chain.mBlocks.length).mTransactions.contains
        (getTransactionHash env bl.minerTx) = true := by
      intro hc
      have := hnew.symm.trans hc
      cases this
    unfold addTransactionFromBlock
    rw [bind_of_ok hproc, if_pos rfl, bind_of_ok hin, if_pos rfl, bind_of_ok (get_apply _), if_neg hold]
    simp only [pushTransactionToGlobalOutsIndex_insert]
    rw [bind_of_ok (set_apply _ _)]
    rfl
  -- from here on only three fields of the recorded chain are looked at
  generalize hs₁ : ({ n.chain.setCheckpointZone n.chain.mBlocks.length with
      mTransactions := n.chain.mTransactions.insert (getTransactionHash env bl.minerTx)
        ⟨n.chain.mBlocks.length, 0⟩
      mOutputs := (pushOutputs ⟨n.chain.mBlocks.length, 0⟩ 0 bl.minerTx.vout n.chain.mOutputs).1 } :
        Storage) = s₁ at hadd
  have hblocks : s₁.mBlocks = n.chain.mBlocks := by rw [← hs₁]; rfl
  have hindex : s₁.mBlocksIndex = n.chain.mBlocksIndex := by rw [← hs₁]; rfl
  have hscratch : s₁.mScratchpad = n.chain.mScratchpad := by rw [← hs₁]; rfl
  have hval : validateMinerTransaction env s₁.mBlocks bl (cumulativeBlockSize env bl [])
      (feeSummary []) (alreadyGeneratedCoins s₁.mBlocks) = .ok (some (base, donation)) := by
    rw [hblocks]
    exact hreward
  have happ : ∃ s₂, appendBlock env (getBlockHash env bl)
      (newBlockEntry env s₁ bl (recordedEntry bl.minerTx ⟨n.chain.mBlocks.length, 0⟩
        n.chain.mOutputs) [] base donation) s₁ = .ok ⟨⟩ s₂ :=
    appendBlock_of_scratchpad (hscratch.symm ▸ hpad) (by rw [hblocks, hindex]; exact hsync)
  obtain ⟨s₂, happ⟩ := happ
  -- the push itself, part by part
  unfold handleBlockToMainChain
  rw [bind_of_ok (get_apply n), hhead]
  simp only
  rw [bind_of_ok (onChain_modify _ n), bind_of_ok (get_apply _)]
  refine ⟨{ n with chain := s₂ }, (congrFun (if_pos hform) _).trans ?_⟩
  unfold connectBlock
  rw [bind_of_ok (get_apply _)]
  refine (bind_of_ok (onChain_of_ok hadd)).trans ?_
  simp only [hempty]
  refine (bind_of_ok rfl).trans ?_
  simp only
  unfold finishBlock
  refine (bind_of_ok (readChain_of_ok hval)).trans ?_
  simp only
  rw [bind_of_ok (get_apply _), if_neg (hindex.symm ▸ hfresh)]
  exact (bind_of_ok (onChain_of_ok happ)).trans rfl

theorem TxsTaken.of_nil {env : Env} {now processed : Nat} {n n' : Node} {taken : List TakenTx}
    (h : TxsTaken env now processed [] n taken n') : taken = [] ∧ n' = n := by
  cases h
  exact ⟨rfl, rfl⟩

/-! ## A steady rhythm -/

/-- The timestamp of the block at `height`. -/
def steadyTime (height : Nat) : UInt64 := UInt64.ofNat (difficultyTarget * height)

theorem steadyTime_toNat {height : Nat} (h : height < 2 ^ 32) :
    (steadyTime height).toNat = 60 * height := by
  unfold steadyTime difficultyTarget
  rw [UInt64.toNat_ofNat_of_lt' (by show 60 * height < 2 ^ 64; omega)]

/-- The timestamps and cumulative difficulties of the blocks from `a` on. -/
def steadyWeights (a len : Nat) : List (UInt64 × Nat) :=
  (List.range len).map fun i => (steadyTime (a + i), a + i + 1)

/-- A tail of the line's weights. -/
theorem steadyWeights_drop (a len k : Nat) :
    (steadyWeights a len).drop k = steadyWeights (a + k) (len - k) := by
  refine List.ext_getElem? fun i => ?_
  rw [List.getElem?_drop]
  unfold steadyWeights
  rw [List.getElem?_map, List.getElem?_map]
  by_cases hi : k + i < len
  · rw [List.getElem?_range hi, List.getElem?_range (by omega)]
    simp only [Option.map_some, Nat.add_assoc]
  · rw [List.getElem?_eq_none (by rw [List.length_range]; omega),
      List.getElem?_eq_none (by rw [List.length_range]; omega)]
    rfl

theorem steadyWeights_take (a len k : Nat) :
    (steadyWeights a len).take k = steadyWeights a (min k len) := by
  unfold steadyWeights
  rw [← List.map_take, List.take_range]

theorem steadyWeights_succ (len : Nat) :
    steadyWeights 0 (len + 1) = steadyWeights 0 len ++ [(steadyTime len, len + 1)] := by
  unfold steadyWeights
  rw [List.range_succ, List.map_append, List.map_singleton, Nat.zero_add]

theorem getD_steadyTimes {a len i : Nat} (h : i < len) :
    ((steadyWeights a len).map (·.1)).getD i 0 = steadyTime (a + i) := by
  unfold steadyWeights
  simp [List.getD, h]

theorem getD_steadyWork {a len i : Nat} (h : i < len) :
    ((steadyWeights a len).map (·.2)).getD i 0 = a + i + 1 := by
  unfold steadyWeights
  simp [List.getD, h]

/-- The times are in order, so sorting them does nothing. -/
theorem steadyTimes_sorted {a len : Nat} (h : a + len < 2 ^ 32) :
    ((steadyWeights a len).map (·.1)).insertionSort (· ≤ ·) = (steadyWeights a len).map (·.1) := by
  refine List.Pairwise.insertionSort_eq ?_
  unfold steadyWeights
  rw [List.map_map, List.pairwise_map]
  refine List.Pairwise.imp_of_mem ?_ List.pairwise_lt_range
  intro i j hi hj hij
  rw [List.mem_range] at hi hj
  show steadyTime (a + i) ≤ steadyTime (a + j)
  rw [UInt64.le_iff_toNat_le, steadyTime_toNat (by omega), steadyTime_toNat (by omega)]
  omega

theorem steadyTime_sub {a i j : Nat} (hij : i ≤ j) (h : a + j < 2 ^ 32) :
    (steadyTime (a + j) - steadyTime (a + i)).toNat = 60 * (j - i) := by
  have hj : (steadyTime (a + j)).toNat = 60 * (a + j) := steadyTime_toNat h
  have hi : (steadyTime (a + i)).toNat = 60 * (a + i) := steadyTime_toNat (by omega)
  rw [UInt64.toNat_sub_of_le _ _ (by rw [UInt64.le_iff_toNat_le]; omega)]
  omega

/-- Blocks that come on time leave the difficulty at one. -/
theorem nextDifficulty_steady {a len : Nat} (h : a + len < 2 ^ 32) :
    nextDifficulty ((steadyWeights a len).map (·.1)) ((steadyWeights a len).map (·.2)) = 1 := by
  unfold nextDifficulty
  simp only [← List.map_take, steadyWeights_take]
  generalize hlen : min difficultyWindow len = l
  have hl : l ≤ 720 := by rw [← hlen]; exact Nat.min_le_left _ _
  have hal : a + l < 2 ^ 32 := by have := Nat.min_le_right difficultyWindow len; omega
  have hlength : ((steadyWeights a l).map (·.1)).length = l := by simp [steadyWeights]
  rw [hlength, steadyTimes_sorted hal]
  split
  · rfl
  · next hone =>
    generalize hb : (if l ≤ difficultyWindow - 2 * difficultyCut then 0
      else (l - (difficultyWindow - 2 * difficultyCut) + 1) / 2) = b
    generalize he : (if l ≤ difficultyWindow - 2 * difficultyCut then l
      else b + (difficultyWindow - 2 * difficultyCut)) = e
    -- at least two blocks are left inside the cuts
    have hbe : b + 1 < e ∧ e ≤ l := by
      have hkept : difficultyWindow - 2 * difficultyCut = 600 := rfl
      rw [hkept] at hb he
      by_cases hle : l ≤ 600
      · rw [if_pos hle] at hb he
        omega
      · rw [if_neg hle] at hb he
        omega
    obtain ⟨hbe, hel⟩ := hbe
    rw [getD_steadyTimes (by omega), getD_steadyTimes (by omega), getD_steadyWork (by omega),
      getD_steadyWork (by omega), steadyTime_sub (by omega) (by omega)]
    have hwork : sub128 (a + (e - 1) + 1) (a + b + 1) = e - 1 - b := by
      unfold sub128
      omega
    rw [hwork]
    generalize hw : e - 1 - b = w
    rw [if_neg (show ¬ 60 * w = 0 by omega)]
    have hone : (w * difficultyTarget + 60 * w - 1) / (60 * w) = 1 := by
      have htarget : difficultyTarget = 60 := rfl
      rw [htarget]
      refine Nat.div_eq_of_lt_le ?_ ?_ <;> omega
    rw [hone]
    rfl

/-- The median of times up to `t` is at most `t`, as long as two of them add up
without a carry. -/
theorem median_le {times : List UInt64} {t : UInt64} (h : ∀ x ∈ times, x ≤ t)
    (ht : t.toNat < 2 ^ 63) : median times ≤ t := by
  have hget : ∀ (l : List UInt64) (i : Nat), (∀ x ∈ l, x ≤ t) → l.getD i 0 ≤ t := by
    intro l i hl
    rw [List.getD]
    cases hi : l[i]? with
    | none =>
      show (0 : UInt64) ≤ t
      rw [UInt64.le_iff_toNat_le]
      exact Nat.zero_le _
    | some x => exact hl x (List.mem_of_getElem? hi)
  have hsorted : ∀ x ∈ times.insertionSort (· ≤ ·), x ≤ t :=
    fun x hx => h x ((List.mem_insertionSort _).1 hx)
  unfold median
  split
  · rw [UInt64.le_iff_toNat_le]
    exact Nat.zero_le _
  · split
    · exact hget _ _ h
    · simp only
      split
      · exact hget _ _ hsorted
      · have h₁ := hget _ (times.length / 2 - 1) hsorted
        have h₂ := hget _ (times.length / 2) hsorted
        generalize (times.insertionSort (· ≤ ·)).getD (times.length / 2 - 1) 0 = x at h₁
        generalize (times.insertionSort (· ≤ ·)).getD (times.length / 2) 0 = y at h₂
        rw [UInt64.le_iff_toNat_le] at h₁ h₂ ⊢
        rw [UInt64.toNat_div, UInt64.toNat_add]
        show (x.toNat + y.toNat) % 2 ^ 64 / 2 ≤ t.toNat
        omega

/-- The full-reward zone never shrinks with the height. -/
theorem zone_mono {a b : Nat} (h : a ≤ b) :
    getBlockGrantedFullRewardZone a ≤ getBlockGrantedFullRewardZone b := by
  unfold getBlockGrantedFullRewardZone
  by_cases hb : b < currencyBlockGrantedFullRewardZoneEnlargeStartingBlock
  · rw [if_pos hb, if_pos (Nat.lt_of_le_of_lt h hb)]
  · rw [if_neg hb]
    split <;> decide

/-- The median of sizes up to `m` is at most `m`. -/
theorem median_sizes_le {sizes : List Nat} {m : Nat} (h : ∀ x ∈ sizes, x ≤ m) :
    median sizes ≤ m := by
  have hget : ∀ (l : List Nat) (i : Nat), (∀ x ∈ l, x ≤ m) → l.getD i 0 ≤ m := by
    intro l i hl
    rw [List.getD]
    cases hi : l[i]? with
    | none => exact Nat.zero_le m
    | some x => exact hl x (List.mem_of_getElem? hi)
  have hsorted : ∀ x ∈ sizes.insertionSort (· ≤ ·), x ≤ m :=
    fun x hx => h x ((List.mem_insertionSort _).1 hx)
  unfold median
  split
  · exact Nat.zero_le m
  · split
    · exact hget _ _ h
    · simp only
      split
      · exact hget _ _ hsorted
      · have h₁ := hget _ (sizes.length / 2 - 1) hsorted
        have h₂ := hget _ (sizes.length / 2) hsorted
        omega

/-- Blocks within the zone leave the limit at twice the zone. -/
theorem limit_of_sizes {s : Storage} {height : Nat} (hlen : s.mBlocks.length = height)
    (h : ∀ e ∈ s.mBlocks, e.blockCumulativeSize ≤ getBlockGrantedFullRewardZone height) :
    s.updateNextComulativeSizeLimit.mCurrentBlockCumulSzLimit =
      getBlockGrantedFullRewardZone height * 2 := by
  have hmedian : median (Storage.lastBlocksSizes s.mBlocks) ≤
      getBlockGrantedFullRewardZone s.getCurrentBlockchainHeight := by
    refine median_sizes_le ?_
    intro x hx
    obtain ⟨e, he, rfl⟩ := List.mem_map.1 hx
    show _ ≤ getBlockGrantedFullRewardZone s.mBlocks.length
    rw [hlen]
    exact h e (List.mem_of_mem_drop he)
  unfold Storage.updateNextComulativeSizeLimit
  simp only
  rw [if_pos hmedian]
  show getBlockGrantedFullRewardZone s.mBlocks.length * 2 = _
  rw [hlen]

/-! ## The line -/

namespace FarLine

/-- The small network, with the sizes the serialiser really writes and no
version the parser does not know. -/
def env : Env :=
  { Devnet.env with
    prefixBlobsize := serializedPrefixSize
    parseTx := fun blob => (Devnet.env.parseTx blob).filter fun tx =>
      decide (tx.version.toNat ≤ currentTransactionVersion) }

/-- What the line takes for granted: the ids of the small network, real sizes,
no proof of work, and a donations account that owns the key 6. -/
structure Steady (env : Env) : Prop where
  hashBlock : env.hashBlock = Devnet.env.hashBlock
  hashPrefix : env.hashPrefix = Devnet.env.hashPrefix
  prefixBlobsize : env.prefixBlobsize = serializedPrefixSize
  checkHash : ∀ hash difficulty, env.checkHash hash difficulty = true
  donations : ∀ pub i, env.isOutToAcc env.donationsAccount 6 pub i = true

theorem steady_env : Steady env where
  hashBlock := rfl
  hashPrefix := rfl
  prefixBlobsize := rfl
  checkHash _ _ := rfl
  donations _ _ := rfl

/-- The output with the shortest serialisation. -/
def emptyScript : TxOut := ⟨0, .toScript [] []⟩

/-- A tenth of the reward goes to the donations account. -/
def donation (height : Nat) : UInt64 := Devnet.reward (Devnet.emitted height) / 10

/-- A number of empty outputs and three payments. -/
def outs (scripts : Nat) (a b c : UInt64) : List TxOut :=
  List.replicate scripts emptyScript ++ [⟨a, .toKey 5 0⟩, ⟨b, .toKey 6 0⟩, ⟨c, .toKey 7 0⟩]

/-- The coinbase at `height`: the miner's share and the donation, behind a
number of empty outputs. -/
def coinbase (height scripts : Nat) : Transaction where
  version := 1
  unlockTime := UInt64.ofNat (height + currencyMinedMoneyUnlockWindow)
  vin := [.gen (UInt64.ofNat height)]
  vout := outs scripts (Devnet.reward (Devnet.emitted height) - donation height)
    (donation height) 0
  extra := []
  signatures := []

/-- The bare block of a height, with so many empty scripts among the coinbase's outputs. -/
def block (height scripts : Nat) : Block where
  majorVersion := 0
  minorVersion := 0
  timestamp := steadyTime height
  prevId := BitVec.ofNat 256 height
  nonce := UInt64.ofNat height
  flags := 0
  minerTx := coinbase height scripts
  txHashes := []

section

variable {env : Env} (henv : Steady env)

include henv in

/-- The ids of the line's blocks are their heights plus one. -/
theorem getBlockHash_block {height : Nat} (scripts : Nat) (h : height < 2 ^ 32) :
    getBlockHash env (block height scripts) = BitVec.ofNat 256 (height + 1) := by
  unfold getBlockHash
  rw [henv.hashBlock]
  show BitVec.ofNat 256 ((UInt64.ofNat height).toNat + 1) = _
  rw [UInt64.toNat_ofNat_of_lt' (by show height < 2 ^ 64; omega)]

include henv in

/-- The coinbases have ids of their own. -/
theorem getTransactionHash_coinbase {height : Nat} (scripts : Nat) (h : height < 2 ^ 32) :
    getTransactionHash env (coinbase height scripts) =
      BitVec.ofNat 256 (2 ^ 64 + height + 61) := by
  unfold getTransactionHash
  rw [henv.hashPrefix]
  show BitVec.ofNat 256 (1 * 2 ^ 64 + (UInt64.ofNat (height + 60)).toNat + 1) = _
  rw [UInt64.toNat_ofNat_of_lt' (by show height + 60 < 2 ^ 64; omega)]
  congr 1

/-- What outputs like the coinbase's take up; the amounts do not matter. -/
theorem size_outs (scripts : Nat) (a b c : UInt64) :
    ((outs scripts a b c).map txOutSize).sum ≤ 4 * scripts + 132 := by
  have hkey : ∀ (a : UInt64) (key : PublicKey), txOutSize ⟨a, .toKey key 0⟩ ≤ 44 :=
    fun a key => txOutSize_le_of_toKey rfl
  have ha := hkey a 5
  have hb := hkey b 6
  have hc := hkey c 7
  rw [outs, List.map_append, List.sum_append, List.map_replicate, List.sum_replicate_nat,
    show txOutSize emptyScript = 4 from txOutSize_emptyScript]
  simp only [List.map_cons, List.map_nil, List.sum_cons, List.sum_nil]
  omega

theorem length_vout (height scripts : Nat) :
    (coinbase height scripts).vout.length = scripts + 3 := by
  unfold coinbase outs
  rw [List.length_append, List.length_replicate]
  rfl

include henv in

/-- A coinbase grows by four bytes for each empty script. -/
theorem size_coinbase (height : Nat) {scripts : Nat} (h : scripts < 2 ^ 32) :
    getObjectBlobsize env (coinbase height scripts).toTransactionPrefix ≤ 4 * scripts + 166 := by
  have hlock := varintSize_word (coinbase height scripts).unlockTime
  have hver : (coinbase height scripts).version.toNat = 1 := rfl
  have hin : ((coinbase height scripts).vin.map txinSize).sum ≤ 11 := by
    have := varintSize_word (UInt64.ofNat height)
    show 1 + varintSize (UInt64.ofNat height).toNat + 0 ≤ 11
    omega
  have hout : ((coinbase height scripts).vout.map txOutSize).sum ≤ 4 * scripts + 132 :=
    size_outs scripts _ _ _
  have hlen : varintSize (scripts + 3) ≤ 5 := by
    refine varintSize_le ?_
    show scripts + 3 < 128 ^ 5
    omega
  have hone : varintSize 1 = 1 := by simp [varintSize]
  have hvin : varintSize (coinbase height scripts).vin.length = 1 := hone
  have hextra : bytesSize (coinbase height scripts).extra = 1 := by
    show varintSize 0 + 0 = 1
    simp [varintSize]
  show env.prefixBlobsize (coinbase height scripts).toTransactionPrefix ≤ _
  rw [henv.prefixBlobsize]
  unfold serializedPrefixSize
  rw [hver, if_neg (show ¬ currentTransactionVersion < 1 from Nat.lt_irrefl 1), length_vout, hvin, hextra, hone]
  generalize ((coinbase height scripts).vin.map txinSize).sum = i at hin ⊢
  generalize ((coinbase height scripts).vout.map txOutSize).sum = o at hout ⊢
  generalize varintSize (coinbase height scripts).unlockTime.toNat = l at hlock ⊢
  omega

/-- Empty scripts add no money. -/
theorem foldl_emptyScripts (scripts : Nat) (money : UInt64) :
    (List.replicate scripts emptyScript).foldl (fun m o => m + o.amount) money = money := by
  induction scripts with
  | zero => rfl
  | succ k ih =>
    rw [List.replicate_succ, List.foldl_cons, show money + emptyScript.amount = money from
      UInt64.add_zero money, ih]

theorem sum_outs (scripts : Nat) (a b c : UInt64) :
    (outs scripts a b c).foldl (fun (money : UInt64) o => money + o.amount) 0 = a + b + c := by
  rw [outs, List.foldl_append, foldl_emptyScripts]
  simp only [List.foldl_cons, List.foldl_nil, UInt64.zero_add]

theorem getOutsMoneyAmount_coinbase (height scripts : Nat) :
    getOutsMoneyAmount (coinbase height scripts).toTransactionPrefix =
      Devnet.reward (Devnet.emitted height) := by
  refine (sum_outs scripts _ _ _).trans ?_
  rw [UInt64.sub_add_cancel, UInt64.add_zero]

/-- Empty scripts cannot overflow the sum. -/
theorem sumOverflowFree_emptyScripts (scripts : Nat) (money : UInt64) (rest : List UInt64) :
    sumOverflowFree money (((List.replicate scripts emptyScript).map (·.amount)) ++ rest) =
      sumOverflowFree money rest := by
  induction scripts with
  | zero => rfl
  | succ k ih =>
    rw [List.replicate_succ, List.map_cons, List.cons_append, sumOverflowFree,
      show emptyScript.amount + money = money from UInt64.zero_add money,
      show money + emptyScript.amount = money from UInt64.add_zero money,
      if_neg (UInt64.lt_irrefl money), ih]

/-- The sum of the outputs does not overflow. -/
theorem sumOverflowFree_outs (scripts : Nat) {a b : UInt64} (h : b ≤ a) :
    sumOverflowFree 0 ((outs scripts (a - b) b 0).map (·.amount)) = true := by
  have hsub : a - b ≤ a := UInt64.sub_le h
  have hzero : ¬ (0 : UInt64) > a - b + 0 := by
    rw [UInt64.add_zero]
    exact Nat.not_lt_zero _
  have hb : ¬ a - b > b + (a - b) := by
    rw [UInt64.add_comm, UInt64.sub_add_cancel]
    exact UInt64.not_lt.2 hsub
  have ha : ¬ a > 0 + a := by
    rw [UInt64.zero_add]
    exact UInt64.lt_irrefl a
  rw [outs, List.map_append, sumOverflowFree_emptyScripts]
  simp only [List.map_cons, List.map_nil, sumOverflowFree]
  rw [if_neg hzero, UInt64.zero_add, if_neg hb, UInt64.sub_add_cancel, if_neg ha]

theorem donation_le (height : Nat) : donation height ≤ Devnet.reward (Devnet.emitted height) := by
  unfold donation
  rw [UInt64.le_iff_toNat_le, UInt64.toNat_div]
  exact Nat.div_le_self _ _

theorem checkOutsOverflow_coinbase (height scripts : Nat) :
    checkOutsOverflow (coinbase height scripts).toTransactionPrefix = true :=
  sumOverflowFree_outs scripts (donation_le height)

/-- An amount with its dust cropped is ten times its tenth. -/
theorem tenth_of_cropped (base : UInt64) :
    base - base % defaultDustThreshold = 10 * ((base - base % defaultDustThreshold) / 10) := by
  have hle : base % defaultDustThreshold ≤ base := by
    rw [UInt64.le_iff_toNat_le, UInt64.toNat_mod]
    exact Nat.mod_le _ _
  have hnat : (base - base % defaultDustThreshold).toNat =
      base.toNat - base.toNat % 1000000 := by
    rw [UInt64.toNat_sub_of_le _ _ hle, UInt64.toNat_mod]
    rfl
  have hlt := base.toNat_lt
  refine UInt64.toNat_inj.1 ?_
  rw [UInt64.toNat_mul, UInt64.toNat_div, hnat]
  show _ = 10 * ((base.toNat - base.toNat % 1000000) / 10) % 2 ^ 64
  omega

/-- The reward is ten times the donation. -/
theorem reward_eq (height : Nat) :
    Devnet.reward (Devnet.emitted height) = 10 * donation height := by
  have hcropped : ∀ generated, Devnet.reward generated =
      10 * (Devnet.reward generated / 10) := by
    intro generated
    exact tenth_of_cropped _
  exact hcropped _

theorem extra_coinbase (height scripts : Nat) :
    parseAndValidateTxExtra env (coinbase height scripts).toTransactionPrefix =
      .ok (true, ExtraWalk.start.info) := rfl

include henv in

/-- The walk over the outputs finds the donation behind the empty scripts. -/
theorem lookforDonation_of_outs {tx : Transaction} {info : TxExtraInfo} {scripts : Nat}
    {a b : UInt64} (hextra : parseAndValidateTxExtra env tx.toTransactionPrefix = .ok (true, info))
    (hout : tx.vout = outs scripts a b 0) : lookforDonation env tx = .ok (some (b, 0)) := by
  have hlen : tx.vout.length = scripts + 3 := by
    rw [hout, outs, List.length_append, List.length_replicate]
    rfl
  have hb : tx.vout[scripts + 1]? = some ⟨b, .toKey 6 0⟩ := by
    rw [hout, outs, List.getElem?_append_right (by rw [List.length_replicate]; omega),
      List.length_replicate, Nat.add_sub_cancel_left]
    rfl
  have hc : tx.vout[scripts + 2]? = some ⟨0, .toKey 7 0⟩ := by
    rw [hout, outs, List.getElem?_append_right (by rw [List.length_replicate]; omega),
      List.length_replicate, Nat.add_sub_cancel_left]
    rfl
  unfold lookforDonation
  rw [hextra]
  simp only [bind, Except.bind, hlen]
  rw [if_neg (by simp), if_pos (show 2 ≤ scripts + 3 by omega)]
  simp only [show scripts + 3 - 2 = scripts + 1 by omega,
    show scripts + 3 - 1 = scripts + 2 by omega, hb, hc]
  refine (if_neg (show ¬ scripts + 3 = 0 by omega)).trans ?_
  -- the last output is the royalty or, when the one before it pays nothing, the
  -- donation; it pays nothing either way
  have hlast : ∀ acc : AccountKeys, (if env.isOutToAcc acc 7 info.mTxPubKey (scripts + 2) then
      (0 : UInt64) else 0) = 0 := fun acc => ite_self 0
  simp only [TxOut.key?, Option.map_some, henv.donations, if_true, hlast]
  by_cases hzero : b = 0
  · rw [hzero]
    exact if_neg (fun hne => hne rfl)
  · exact if_pos hzero

/-- A block within the zone gets its reward uncut. -/
theorem getBlockReward_of_le {medianSize size height : Nat} (generated : UInt64)
    (h : size ≤ getBlockGrantedFullRewardZone height) :
    getBlockReward medianSize size generated height = some (Devnet.reward generated) := by
  have hsize : size ≤ max medianSize (getBlockGrantedFullRewardZone height) :=
    h.trans (Nat.le_max_right _ _)
  unfold getBlockReward
  simp only
  rw [if_pos hsize]
  rfl

theorem getBlockHeight_block {height : Nat} (scripts : Nat) (h : height < 2 ^ 32) :
    (getBlockHeight (block height scripts)).toNat = height := by
  show (UInt64.ofNat height).toNat = height
  rw [UInt64.toNat_ofNat_of_lt' (by show height < 2 ^ 64; omega)]

include henv in

/-- The coinbase of the line is accepted at its height. -/
theorem validateMinerTransaction_block {height size : Nat} (scripts : Nat)
    (blocks : List BlockEntry) (h : height < 2 ^ 32) (hsize : size ≤ getBlockGrantedFullRewardZone height) :
    ∃ donated, validateMinerTransaction env blocks (block height scripts) size 0
      (Devnet.emitted height) =
        .ok (some (Devnet.reward (Devnet.emitted height), donated)) := by
  have hmoney : getOutsMoneyAmount (block height scripts).minerTx.toTransactionPrefix =
      Devnet.reward (Devnet.emitted height) := getOutsMoneyAmount_coinbase height scripts
  have hdonation : lookforDonation env (block height scripts).minerTx =
      .ok (some (donation height, 0)) :=
    lookforDonation_of_outs henv (extra_coinbase height scripts) rfl
  have hten := reward_eq height
  unfold validateMinerTransaction
  simp only [getBlockHeight_block scripts h, hmoney, hdonation]
  by_cases hd : height ≥ currencyDonationsStartBlockno
  · rw [if_pos hd]
    simp only [bind, Except.bind, getBlockReward_of_le _ hsize]
    rw [if_neg (fun hne => hne.2 (by rw [UInt64.add_zero]; exact hten)), if_neg (fun hne => hne (UInt64.add_zero _))]
    exact ⟨_, rfl⟩
  · rw [if_neg hd]
    simp only [bind, Except.bind, pure, Except.pure, getBlockReward_of_le _ hsize]
    rw [if_neg (fun hne => hd hne.1), if_neg (fun hne => hne (UInt64.add_zero _))]
    exact ⟨_, rfl⟩

include henv in

/-- The block stays within the zone as long as it has few enough empty scripts. -/
theorem size_block {height scripts : Nat}
    (h : 4 * scripts + 166 ≤ getBlockGrantedFullRewardZone height) :
    cumulativeBlockSize env (block height scripts) [] ≤ getBlockGrantedFullRewardZone height := by
  have hzone : getBlockGrantedFullRewardZone height ≤ 1000000 := by
    unfold getBlockGrantedFullRewardZone
    split
    · decide
    · exact Nat.le_refl _
  have hscripts : scripts < 2 ^ 32 := by omega
  exact (size_coinbase henv height hscripts).trans h

end

/-- The node that has taken the blocks below `height`, each within the zone. -/
structure At (env : Env) (height : Nat) (n : Node) : Prop where
  sound : Sound env (fun _ => True) n
  weights : weights n.chain.mBlocks = steadyWeights 0 height
  index : n.chain.mBlocksIndex = (List.range height).map fun i => BitVec.ofNat 256 (i + 1)
  generated : alreadyGeneratedCoins n.chain.mBlocks = Devnet.emitted height
  txs : ∀ id, n.chain.mTransactions.contains id = true →
    ∃ i < height, id = BitVec.ofNat 256 (2 ^ 64 + i + 61)
  checkpoints : n.chain.mCheckpoints = ∅
  alternative : n.chain.mAlternativeChains = ∅
  invalid : n.chain.mInvalidBlocks = ∅
  spent : n.chain.mSpentKeys = ∅
  sizes : ∀ e ∈ n.chain.mBlocks, e.blockCumulativeSize ≤ getBlockGrantedFullRewardZone height
  limit : 0 < height → n.chain.mCurrentBlockCumulSzLimit = getBlockGrantedFullRewardZone height * 2

namespace At

variable {env : Env} {height : Nat} {n : Node}

/-- The line of length zero. -/
theorem initial (env : Env) : At env 0 (Node.initial ∅) where
  sound := Sound.initial env _ ∅
  weights := rfl
  index := rfl
  generated := rfl
  txs id h := by
    have hempty : (∅ : Map Hash TransactionIndex).contains id = false := by simp
    cases hempty.symm.trans h
  checkpoints := rfl
  alternative := rfl
  invalid := rfl
  spent := rfl
  sizes _ h := (nomatch h)
  limit h := absurd h (Nat.lt_irrefl 0)

theorem length (h : At env height n) : n.chain.mBlocks.length = height := by
  have := congrArg List.length h.index
  rwa [h.sound.sync, List.length_map, List.length_range] at this

/-- The id at the top of the line. -/
theorem topBlockId (h : At env height n) : n.chain.getTopBlockId env = BitVec.ofNat 256 height := by
  have hlast : n.chain.getTopBlockId env = (n.chain.mBlocksIndex.getLast?).getD nullHash := by
    rw [h.sound.index, blockIds, List.getLast?_map]
    unfold Storage.getTopBlockId
    cases n.chain.mBlocks.getLast? <;> rfl
  rw [hlast, h.index]
  cases height with
  | zero => rfl
  | succ k =>
    rw [List.range_succ, List.map_append, List.map_singleton, List.getLast?_concat]
    rfl

/-- The next block of the line is not known yet. -/
theorem fresh (h : At env height n) (hlt : height < 2 ^ 32) :
    BitVec.ofNat 256 (height + 1) ∉ n.chain.mBlocksIndex := by
  rw [h.index]
  intro hmem
  obtain ⟨i, hi, heq⟩ := List.mem_map.1 hmem
  rw [List.mem_range] at hi
  have := congrArg BitVec.toNat heq
  rw [BitVec.toNat_ofNat, BitVec.toNat_ofNat] at this
  omega

theorem weights_drop (h : At env height n) (k : Nat) :
    DarknetSpace.weights (n.chain.mBlocks.drop k) = steadyWeights k (height - k) := by
  rw [DarknetSpace.weights, List.map_drop]
  refine (congrArg (List.drop k) h.weights).trans ?_
  rw [steadyWeights_drop, Nat.zero_add]

theorem times (h : At env height n) (k : Nat) :
    (n.chain.mBlocks.drop k).map (·.bl.timestamp) = (steadyWeights k (height - k)).map (·.1) := by
  rw [← h.weights_drop, DarknetSpace.weights, List.map_map]
  rfl

theorem work (h : At env height n) (k : Nat) :
    (n.chain.mBlocks.drop k).map (·.cumulativeDifficulty) =
      (steadyWeights k (height - k)).map (·.2) := by
  rw [← h.weights_drop, DarknetSpace.weights, List.map_map]
  rfl

/-- A block a minute keeps the difficulty at one. -/
theorem difficulty (h : At env height n) (hlt : height < 2 ^ 31) :
    Storage.getDifficultyForNextBlock n.chain.mBlocks = 1 := by
  unfold Storage.getDifficultyForNextBlock Storage.difficultyBlocks
  simp only [h.length]
  generalize hk : (if height - min height difficultyBlocksCount = 0 then 1
    else height - min height difficultyBlocksCount) = k
  have hle : k ≤ height + 1 := by
    rw [← hk]
    split <;> omega
  rw [h.times, h.work]
  exact nextDifficulty_steady (by omega)

/-- The next block is later than the median and not too far ahead. -/
theorem timestamp (h : At env height n) (hlt : height < 2 ^ 31) (scripts : Nat) {now : Nat}
    (hnow : 60 * height ≤ now) :
    Storage.checkBlockTimestampMain now n.chain.mBlocks (block height scripts) = true := by
  have htime : (block height scripts).timestamp.toNat = 60 * height :=
    steadyTime_toNat (by omega)
  unfold Storage.checkBlockTimestampMain Storage.checkBlockTimestamp
  rw [if_neg (by omega), h.length, h.times]
  split
  · rfl
  · refine decide_eq_true ?_
    refine UInt64.not_lt.2 (median_le (fun x hx => ?_) (by omega))
    obtain ⟨w, hw, rfl⟩ := List.mem_map.1 hx
    obtain ⟨i, hi, rfl⟩ := List.mem_map.1 hw
    rw [List.mem_range] at hi
    rw [UInt64.le_iff_toNat_le, htime, steadyTime_toNat (by omega)]
    omega

/-- The next block of the line passes the header checks. -/
theorem header (h : At env height n) (henv : Steady env) (hlt : height < 2 ^ 31)
    (scripts : Nat) {now : Nat} (hnow : 60 * height ≤ now) :
    checkBlockHeader env now n.chain (block height scripts) = none := by
  have htop : (block height scripts).prevId = n.chain.getTopBlockId env := h.topBlockId.symm
  have htime := h.timestamp hlt scripts hnow
  unfold checkBlockHeader
  rw [if_neg (fun hne => hne htop), if_neg (fun hne => hne htime), h.difficulty hlt,
    if_neg Nat.one_ne_zero, if_neg (fun hne => hne (henv.checkHash _ _))]

/-- The next block of the line passes the checks of its form. -/
theorem form (h : At env height n) (hlt : height < 2 ^ 31) (scripts : Nat) (id : Hash) :
    checkBlockForm (n.chain.setCheckpointZone n.chain.mBlocks.length) (block height scripts) id
      n.chain.mBlocks.length = true := by
  have hzone : (n.chain.setCheckpointZone n.chain.mBlocks.length).mIsInCheckpointZone = false := by
    show n.chain.mCheckpoints.isInCheckpointZone _ = false
    rw [h.checkpoints]
    rfl
  have hheight : (UInt64.ofNat height).toNat = height :=
    UInt64.toNat_ofNat_of_lt' (by show height < 2 ^ 64; omega)
  have hlock : (UInt64.ofNat (height + currencyMinedMoneyUnlockWindow)).toNat =
      height + currencyMinedMoneyUnlockWindow :=
    UInt64.toNat_ofNat_of_lt' (by show height + 60 < 2 ^ 64; omega)
  unfold checkBlockForm
  rw [hzone, h.length, Bool.not_false, Bool.true_or, Bool.true_and]
  show (decide ((UInt64.ofNat height).toNat = height) &&
      decide ((UInt64.ofNat (height + currencyMinedMoneyUnlockWindow)).toNat =
        height + currencyMinedMoneyUnlockWindow) &&
      checkOutsOverflow (coinbase height scripts).toTransactionPrefix) = true
  rw [decide_eq_true hheight, decide_eq_true hlock, checkOutsOverflow_coinbase]
  rfl

/-- The next coinbase is not on the chain yet. -/
theorem newCoinbase (h : At env height n) (henv : Steady env) (hlt : height < 2 ^ 31) (scripts : Nat) :
    n.chain.mTransactions.contains (getTransactionHash env (coinbase height scripts)) = false := by
  cases hc : n.chain.mTransactions.contains (getTransactionHash env (coinbase height scripts)) with
  | false => rfl
  | true =>
    obtain ⟨i, hi, heq⟩ := h.txs _ hc
    rw [getTransactionHash_coinbase henv scripts (by omega)] at heq
    have := congrArg BitVec.toNat heq
    rw [BitVec.toNat_ofNat, BitVec.toNat_ofNat] at this
    omega

/-- The next block of the line is taken, with any number of empty outputs that
fits in the zone. -/
theorem added (h : At env height n) (henv : Steady env) (hlt : height < 2 ^ 31) {scripts now : Nat}
    (hsize : 4 * scripts + 166 ≤ getBlockGrantedFullRewardZone height)
    (hnow : 60 * height ≤ now) :
    ∃ n', handleBlockToMainChain env now (block height scripts)
      (getBlockHash env (block height scripts)) n = .ok .added n' := by
  obtain ⟨donated, hreward⟩ :=
    validateMinerTransaction_block henv scripts n.chain.mBlocks (by omega)
      (size_block henv hsize)
  rw [← h.generated] at hreward
  exact handleBlockToMainChain_bare h.sound.sync (h.header henv hlt scripts hnow) (h.form hlt scripts _)
    rfl (extra_coinbase height scripts) rfl (h.newCoinbase henv hlt scripts) hreward
    (by rw [getBlockHash_block henv scripts (by omega)]; exact h.fresh (by omega))

/-- Each block of the line adds one. -/
theorem cumulativeDifficulty (h : At env height n) :
    DarknetSpace.cumulativeDifficulty n.chain.mBlocks = height := by
  rw [cumulativeDifficulty_eq, h.weights]
  cases height with
  | zero => rfl
  | succ k =>
    rw [steadyWeights_succ, List.getLast?_concat]
    rfl

/-- What the node is after it has taken the next block: the line one block longer. -/
theorem after (h : At env height n) (henv : Steady env) (hlt : height < 2 ^ 31) {scripts now : Nat} {n' : Node}
    (hsize : 4 * scripts + 166 ≤ getBlockGrantedFullRewardZone height)
    (hadd : handleBlockToMainChain env now (block height scripts)
      (getBlockHash env (block height scripts)) n = .ok .added n') : At env (height + 1) n' := by
  obtain ⟨c⟩ := handleBlockToMainChain_added hadd
  have hchain := c.chain_eq h.sound.sync
  obtain ⟨htaken, hm⟩ : c.taken = [] ∧ c.m = { n with chain := c.s₁ } :=
    TxsTaken.of_nil (show TxsTaken env now 0 [] { n with chain := c.s₁ } c.taken c.m from c.txs)
  have hblocks : c.m.chain.mBlocks = n.chain.mBlocks := by
    rw [hm]
    exact c.coinbase_blocks
  -- a field that the push does not write
  have hside : ∀ {α : Type} (f : Storage → α), (∀ s, f s = f s.frame) →
      f c.m.chain = f (n.chain.setCheckpointZone n.chain.mBlocks.length) := by
    intro α f hf
    rw [hf c.m.chain, c.frame, ← hf]
  have hsize' : c.entry.blockCumulativeSize ≤ getBlockGrantedFullRewardZone height := by
    show cumulativeBlockSize env (block height scripts) c.taken ≤ _
    rw [htaken]
    exact size_block henv hsize
  have hsizes : ∀ e ∈ c.m.chain.mBlocks ++ [c.entry],
      e.blockCumulativeSize ≤ getBlockGrantedFullRewardZone (height + 1) := by
    intro e he
    refine Nat.le_trans ?_ (zone_mono (Nat.le_succ height))
    rcases List.mem_append.1 he with he | he
    · exact h.sizes e (hblocks ▸ he)
    · cases List.mem_singleton.1 he
      exact hsize'
  refine ⟨c.sound h.sound, ?_, ?_, ?_, ?_, ?_, ?_, ?_, ?_, ?_, ?_⟩
  · rw [c.weights_eq h.sound, h.weights, steadyWeights_succ, nextWeight, h.difficulty hlt,
      h.cumulativeDifficulty, Nat.mod_eq_of_lt (by omega), Nat.add_comm 1 height]
    rfl
  · rw [hchain]
    show n.chain.mBlocksIndex ++ [_] = _
    rw [h.index, getBlockHash_block henv scripts (by omega), List.range_succ, List.map_append]
    rfl
  -- the reward is that of a block within the full reward zone
  · obtain ⟨donated, hreward⟩ := validateMinerTransaction_block henv scripts n.chain.mBlocks
      (show height < 2 ^ 32 by omega) (size_block henv hsize)
    have hbase : c.baseReward = Devnet.reward (Devnet.emitted height) := by
      have hc := c.reward
      rw [hblocks, htaken, h.generated] at hc
      have := Option.some.inj (Except.ok.inj (hc.symm.trans hreward))
      exact congrArg Prod.fst this
    rw [hchain]
    show alreadyGeneratedCoins (c.m.chain.mBlocks ++ [c.entry]) = _
    rw [alreadyGeneratedCoins, List.getLast?_concat]
    show alreadyGeneratedCoins c.m.chain.mBlocks + c.baseReward = _
    rw [hblocks, h.generated, hbase]
    rfl
  · intro id hid
    rw [hchain] at hid
    have hid : c.m.chain.mTransactions.contains id = true := hid
    rw [hm] at hid
    have hid : c.s₁.mTransactions.contains id = true := hid
    rw [c.recorded.transactions, Std.ExtTreeMap.contains_insert, Bool.or_eq_true] at hid
    rcases hid with hid | hid
    · refine ⟨height, Nat.lt_succ_self height, ?_⟩
      rw [← getTransactionHash_coinbase henv scripts (by omega)]
      exact (Std.LawfulEqCmp.eq_of_compare (beq_iff_eq.1 hid)).symm
    · obtain ⟨i, hi, heq⟩ := h.txs id hid
      exact ⟨i, Nat.lt_succ_of_lt hi, heq⟩
  · rw [hchain]
    exact (hside Storage.mCheckpoints fun _ => rfl).trans h.checkpoints
  · rw [hchain]
    exact (hside Storage.mAlternativeChains fun _ => rfl).trans h.alternative
  · rw [hchain]
    exact (hside Storage.mInvalidBlocks fun _ => rfl).trans h.invalid
  · rw [hchain]
    show c.m.chain.mSpentKeys = ∅
    rw [hm]
    show c.s₁.mSpentKeys = ∅
    rw [c.recorded.spentKeys]
    exact h.spent
  · rw [hchain]
    exact hsizes
  · intro _
    rw [hchain]
    refine limit_of_sizes ?_ hsizes
    show (c.m.chain.mBlocks ++ [c.entry]).length = height + 1
    rw [List.length_append, hblocks, h.length]
    rfl

/-- The next block of the line extends the main chain. -/
theorem addNewBlock_eq (h : At env height n) (henv : Steady env) (hlt : height < 2 ^ 31) (now depth scripts : Nat) :
    addNewBlock env now depth (block height scripts) n =
      handleBlockToMainChain env now (block height scripts)
        (getBlockHash env (block height scripts)) n := by
  have hid := getBlockHash_block henv scripts (show height < 2 ^ 32 by omega)
  have hhave : n.chain.haveBlock (getBlockHash env (block height scripts)) = false := by
    have hmem : decide (getBlockHash env (block height scripts) ∈ n.chain.mBlocksIndex) = false := by
      refine decide_eq_false ?_
      rw [hid]
      exact h.fresh (by omega)
    unfold Storage.haveBlock
    rw [hmem, h.alternative, h.invalid]
    simp
  have htop : (block height scripts).prevId = n.chain.getTopBlockId env := h.topBlockId.symm
  unfold addNewBlock
  rw [bind_of_ok (get_apply n), if_neg (by rw [hhave]; exact Bool.false_ne_true),
    if_neg (fun hne => hne htop)]

/-- A block with nothing but its three payments is the next one, and the pool
does not notice. -/
theorem next (h : At env height n) (henv : Steady env) (hlt : height < 2 ^ 31) (depth : Nat)
    {now : Nat} (hnow : 60 * height ≤ now) :
    ∃ n', addNewBlock env now depth (block height 0) n = .ok .added n' ∧
      At env (height + 1) n' ∧ n'.pool = n.pool := by
  have hsize : 4 * 0 + 166 ≤ getBlockGrantedFullRewardZone height := by
    unfold getBlockGrantedFullRewardZone
    split <;> decide
  obtain ⟨n', hadd⟩ := h.added henv hlt hsize hnow
  refine ⟨n', (h.addNewBlock_eq henv hlt now depth 0).trans hadd, h.after henv hlt hsize hadd, ?_⟩
  obtain ⟨c⟩ := handleBlockToMainChain_added hadd
  obtain ⟨-, hm⟩ : c.taken = [] ∧ c.m = { n with chain := c.s₁ } :=
    TxsTaken.of_nil (show TxsTaken env now 0 [] { n with chain := c.s₁ } c.taken c.m from c.txs)
  rw [c.node, hm]

theorem fresh_limit (h : At env height n) (hpos : 0 < height) :
    n.chain.mCurrentBlockCumulSzLimit =
      n.chain.updateNextComulativeSizeLimit.mCurrentBlockCumulSzLimit :=
  (h.limit hpos).trans (limit_of_sizes h.length h.sizes).symm

theorem halfLimit (h : At env height n) (hpos : 0 < height) (hlow : height < 147000) :
    n.chain.mCurrentBlockCumulSzLimit / 2 = 30000 := by
  rw [h.limit hpos, Nat.mul_div_cancel _ (by omega)]
  exact if_pos hlow

/-- A transaction that comes in leaves the chain where it is. -/
theorem incoming (h : At env height n) (now : Nat) (blob : Blob) (kept : Bool) :
    At env height (stateOf (handleIncomingTx env now blob kept n)) := by
  obtain ⟨pool, hstate, hpool⟩ :=
    handleIncomingTx_poolOnly ((guaranteed_true env).admitted blob) now kept h.sound.pool
  rw [hstate]
  exact ⟨⟨h.sound.index, h.sound.outputs, h.sound.txs, hpool⟩, h.weights, h.index, h.generated,
    h.txs, h.checkpoints, h.alternative, h.invalid, h.spent, h.sizes, h.limit⟩

end At

/-- A run in two parts. -/
theorem runEvents_append (env : Env) (now depth : Nat) (evs rest : List Event) (n : Node) :
    runEvents env now depth (evs ++ rest) n =
      (runEvents env now depth evs n).bind (runEvents env now depth rest) := by
  induction evs generalizing n with
  | nil => rfl
  | cons ev evs ih =>
    rw [List.cons_append, runEvents, runEvents]
    split
    · exact ih _
    · exact ih _
    · rfl

/-- Calls that bring transactions only. -/
def incomings (blobs : List Blob) : List Event := blobs.map (.incomingTx · false)

/-- Incoming transactions leave the line. -/
theorem At.incomings {env : Env} {height now depth : Nat} {blobs : List Blob} {n n' : Node}
    (h : At env height n) (hrun : runEvents env now depth (incomings blobs) n = some n') :
    At env height n' := by
  induction blobs generalizing n with
  | nil =>
    cases hrun
    exact h
  | cons blob rest ih =>
    have hin := h.incoming now blob false
    have hrun : runEvents env now depth (.incomingTx blob false :: FarLine.incomings rest) n =
        some n' := hrun
    unfold runEvents at hrun
    cases hcall : handleIncomingTx env now blob false n with
    | ok v m =>
      have hone : runEvent env now depth (.incomingTx blob false) n = .ok v.1 m := bind_of_ok hcall
      rw [hcall] at hin
      rw [hone] at hrun
      exact ih hin hrun
    | error e m =>
      have hone : runEvent env now depth (.incomingTx blob false) n = .error e m :=
        bind_of_error hcall
      rw [hcall] at hin
      rw [hone] at hrun
      cases e with
      | indexOverflow => exact ih hin hrun
      | undefinedBehaviour => cases hrun
      | endless => cases hrun

/-- So many calls that bring the blocks of the line from `height` on. -/
def line : (height : Nat) → (count : Nat) → List Event
  | _, 0 => []
  | height, count + 1 => .newBlock (block height 0) :: line (height + 1) count

/-- The line goes on for as many blocks as the heights allow. -/
theorem At.run {env : Env} (henv : Steady env) {height count : Nat} {n : Node}
    (h : At env height n) (hlt : height + count < 2 ^ 31) (depth : Nat) {now : Nat}
    (hnow : 60 * (height + count) ≤ now) :
    ∃ n', runEvents env now depth (line height count) n = some n' ∧
      At env (height + count) n' ∧ n'.pool = n.pool := by
  induction count generalizing height n with
  | zero => exact ⟨n, rfl, h, rfl⟩
  | succ k ih =>
    obtain ⟨n₁, hadd, hat, hpool⟩ := h.next henv (by omega) depth (show 60 * height ≤ now by omega)
    obtain ⟨n', hrun, hat', hpool'⟩ := ih hat (by omega) (by omega)
    have hevent : runEvent env now depth (.newBlock (block height 0)) n = .ok true n₁ :=
      (bind_of_ok hadd).trans rfl
    refine ⟨n', ?_, ?_, hpool'.trans hpool⟩
    · show runEvents env now depth (.newBlock (block height 0) :: line (height + 1) k) n = _
      unfold runEvents
      rw [hevent]
      exact hrun
    · rw [show height + (k + 1) = height + 1 + k by omega]
      exact hat'

/-- The line grows to any height. -/
theorem exists_reachable {env : Env} (henv : Steady env) {height : Nat} (hpos : 0 < height)
    (h : height < 2 ^ 31) : ∃ n, At env height n ∧ Reachable env n := by
  obtain ⟨n₁, hadd, hat, -⟩ := (At.initial env).next henv (by omega) 0 (Nat.zero_le (60 * height))
  obtain ⟨n, hrun, hat', -⟩ := At.run henv hat (by omega) 0
    (show 60 * (0 + 1 + (height - 1)) ≤ 60 * height by omega)
  have hreach := Reachable.runEvents (.genesis hadd) hrun
  rw [show 0 + 1 + (height - 1) = height by omega] at hat'
  exact ⟨n, hat', hreach⟩

end FarLine

end DarknetSpace
