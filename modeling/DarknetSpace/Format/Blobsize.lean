import DarknetSpace.Format.Money

/-!
# The size of a serialised transaction prefix

How many bytes the binary archive writes for a `transaction_prefix`: numbers as
varints, PODs as they are, containers behind their length, variants behind a
one-byte tag. A version above the current one makes the serialiser stop right
behind it, with what it has written so far; no such transaction can be parsed.

The smallest output is an empty `txout_to_script`: four bytes with its amount.
A `txout_to_key` takes thirty-five.

It is what the checks on sizes use, and what the fee and the reward depend on; that it
is the length of what is really written is in `RealSize`.
-/

namespace DarknetSpace

def currentTransactionVersion : Nat := 1

/-- The number of bytes `write_varint` puts out. -/
def varintSize (v : Nat) : Nat := if v < 128 then 1 else 1 + varintSize (v / 128)
termination_by v
decreasing_by omega

theorem one_le_varintSize (v : Nat) : 1 ≤ varintSize v := by
  unfold varintSize
  split
  · exact Nat.le_refl 1
  · omega

theorem varintSize_le {k : Nat} {v : Nat} (h : v < 128 ^ (k + 1)) : varintSize v ≤ k + 1 := by
  induction k generalizing v with
  | zero =>
    unfold varintSize
    rw [if_pos (by omega)]
  | succ k ih =>
    unfold varintSize
    split
    · omega
    · have hdiv : v / 128 < 128 ^ (k + 1) := by
        rw [Nat.div_lt_iff_lt_mul (by omega), ← Nat.pow_succ]
        exact h
      have := ih hdiv
      omega

theorem varintSize_word (v : UInt64) : varintSize v.toNat ≤ 10 := by
  refine varintSize_le ?_
  have := v.toNat_lt
  calc v.toNat < 2 ^ 64 := this
    _ ≤ 128 ^ (9 + 1) := by decide

/-- A `std::vector<uint8_t>`. -/
def bytesSize (b : Blob) : Nat := varintSize b.length + b.length

/-- A `txout_to_script`. -/
def scriptSize (keys : List PublicKey) (script : Blob) : Nat :=
  varintSize keys.length + 32 * keys.length + bytesSize script

/-- A `txin_v` behind its tag. -/
def txinSize : Txin → Nat
  | .gen height => 1 + varintSize height.toNat
  | .toScript _ prevout sigset => 1 + 32 + varintSize prevout.toNat + bytesSize sigset
  | .toScripthash _ prevout keys script sigset =>
    1 + 32 + varintSize prevout.toNat + scriptSize keys script + bytesSize sigset
  | .toKey amount keyOffsets _ =>
    1 + varintSize amount.toNat +
      (varintSize keyOffsets.length + (keyOffsets.map fun o => varintSize o.toNat).sum) + 32

/-- A `txout_target_v` behind its tag. -/
def txoutTargetSize : TxoutTarget → Nat
  | .toScript keys script => 1 + scriptSize keys script
  | .toScripthash _ => 1 + 32
  | .toKey _ _ => 1 + 33

/-- A `tx_out`. -/
def txOutSize (o : TxOut) : Nat := varintSize o.amount.toNat + txoutTargetSize o.target

/-- The length of `t_serializable_object_to_blob` of a `transaction_prefix`. -/
def serializedPrefixSize (tx : TransactionPrefix) : Nat :=
  varintSize tx.version.toNat +
    if currentTransactionVersion < tx.version.toNat then 0
    else
      varintSize tx.unlockTime.toNat +
        (varintSize tx.vin.length + (tx.vin.map txinSize).sum) +
        (varintSize tx.vout.length + (tx.vout.map txOutSize).sum) + bytesSize tx.extra

/-- The size of an empty script output of amount zero. -/
theorem txOutSize_emptyScript : txOutSize ⟨0, .toScript [] []⟩ = 4 := by
  simp [txOutSize, txoutTargetSize, scriptSize, bytesSize, varintSize]

theorem txOutSize_le_of_toKey {o : TxOut} {key : PublicKey} {mix : UInt8}
    (h : o.target = .toKey key mix) : txOutSize o ≤ 44 := by
  unfold txOutSize
  rw [h]
  have := varintSize_word o.amount
  show _ + (1 + 33) ≤ 44
  omega

/-- What the outputs of a transaction that pays to keys take up. -/
theorem sum_txOutSize_of_toKey {vout : List TxOut}
    (h : ∀ o ∈ vout, ∃ key mix, o.target = .toKey key mix) :
    35 * vout.length ≤ (vout.map txOutSize).sum := by
  induction vout with
  | nil => exact Nat.le_refl 0
  | cons o rest ih =>
    obtain ⟨ho, hrest⟩ := List.forall_mem_cons.1 h
    have hsum := ih hrest
    have hone : 35 ≤ txOutSize o := by
      obtain ⟨key, mix, ht⟩ := ho
      unfold txOutSize
      rw [ht]
      have := one_le_varintSize o.amount.toNat
      show 35 ≤ _ + (1 + 33)
      omega
    rw [List.map_cons, List.sum_cons, List.length_cons]
    omega

/-- An ordinary transaction: it spends from keys and pays to keys. -/
structure SpendsKeys (tx : TransactionPrefix) : Prop where
  vin_ne : tx.vin ≠ []
  vin : ∀ i ∈ tx.vin, ∃ amount offs kImage, i = .toKey amount offs kImage
  vout : ∀ o ∈ tx.vout, ∃ key mix, o.target = .toKey key mix

theorem SpendsKeys.size {tx : TransactionPrefix} (h : SpendsKeys tx)
    (hv : tx.version.toNat ≤ currentTransactionVersion) :
    35 * tx.vout.length + 35 ≤ serializedPrefixSize tx := by
  have hout := sum_txOutSize_of_toKey h.vout
  have hin : 35 ≤ (tx.vin.map txinSize).sum := by
    cases hvin : tx.vin with
    | nil => exact absurd hvin h.vin_ne
    | cons i rest =>
      obtain ⟨amount, offs, kImage, rfl⟩ := h.vin i (by rw [hvin]; exact List.mem_cons_self)
      have h₁ := one_le_varintSize amount.toNat
      have h₂ := one_le_varintSize offs.length
      rw [List.map_cons, List.sum_cons]
      show 35 ≤ (1 + _ + (_ + _) + 32) + _
      omega
  unfold serializedPrefixSize
  rw [if_neg (by omega)]
  omega

end DarknetSpace
