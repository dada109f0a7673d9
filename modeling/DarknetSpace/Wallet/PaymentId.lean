import DarknetSpace.Format.HexString
import DarknetSpace.Format.MinerAlias
import DarknetSpace.Wallet.Payment

/-!
# Payment ids (`wallet_rpc_server::on_transfer`)

A transfer request may name a payment id in hexadecimal. The id goes into the
extra field behind two tags and two lengths, in front of the transaction's public
key, and is read back from there. Where the text is no id the request goes ahead
without one, and the parser takes some texts that are none: it reads two
characters at a time with `strtoul`, which allows for white space and a sign.

`paymentIdKept_iff` is about the extra field: the tag of the user data among the bytes
of the key in front makes the reader start in the wrong place. `payment_carries_id_iff`
is about the request as a whole, for every text, and names the texts for which a payment
is made that carries another id than the text says, or none.
-/

namespace DarknetSpace

open StateExn

def parsePaymentIdFromHexStr (paymentIdStr : Blob) : Option Hash :=
  (parseHexstrToBinbuff paymentIdStr).bind hashOfBytes

/-! ## The request -/

/-- `TX_EXTRA_MAX_USER_DATA_SIZE`. -/
def txMaxPaymentIdSize : Nat := 250

/-- `set_payment_id_to_tx_extra`: the verdict and the extra field. -/
def setPaymentIdToTxExtra (extra paymentId : Blob) : Bool × Blob :=
  if paymentId = [] ∨ txMaxPaymentIdSize ≤ paymentId.length then (false, extra)
  else if txExtraTagUserData ∈ extra then (false, extra)
  else (true, extra ++ txExtraTagUserData :: UInt8.ofNat (paymentId.length + 2) ::
    txUserDataTagPaymentId :: UInt8.ofNat paymentId.length :: paymentId)

/-- `COMMAND_RPC_TRANSFER::request`. -/
structure TransferRequest where
  destinations : List (Blob × UInt64)
  fee : UInt64
  mixin : Nat
  unlockTime : UInt64
  paymentIdHex : Blob

/-- The error of a response: its code, and what its message is made of. -/
inductive TransferFault where
  | wrongAddress (address : Blob)
  | daemonIsBusy (e : WalletError)
  | genericTransferError (e : WalletError)

def requestDestinations (getTransferAddress : Blob → Option AccountPublicAddress) :
    List (Blob × UInt64) → Except Blob (List TxDestinationEntry)
  | [] => .ok []
  | (address, amount) :: rest =>
    match getTransferAddress address with
    | none => .error address
    | some addr => (requestDestinations getTransferAddress rest).map fun dsts => ⟨amount, addr⟩ :: dsts

/-- The extra field; neither result is looked at again. -/
def requestExtra (paymentIdHex : Blob) : Blob :=
  match parsePaymentIdFromHexStr paymentIdHex with
  | some paymentId => (setPaymentIdToTxExtra [] (bytesOfPod 32 paymentId.toNat)).2
  | none => []

/-- What `wallet2::transfer` is called with. -/
def requestOrder (req : TransferRequest) (dsts : List TxDestinationEntry) : TransferOrder where
  dsts
  fakeOutputsCount := req.mixin
  unlockTime := req.unlockTime
  fee := req.fee
  extra := requestExtra req.paymentIdHex
  destinationSplitStrategy := digitSplitStrategy
  dustPolicy := txDustPolicy 0 true ⟨0, 0⟩

/-- `on_transfer` up to the response: the transaction that went out. -/
def sendRequested (getTransferAddress : Blob → Option AccountPublicAddress) (te : TransferEnv)
    (req : TransferRequest) : EStateM TransferFault Wallet2 Transaction := fun w =>
  match requestDestinations getTransferAddress req.destinations with
  | .error address => .error (.wrongAddress address) w
  | .ok dsts =>
    match transfer te (requestOrder req dsts) w with
    | .ok tx w' => .ok tx w'
    | .error (.daemonBusy request) w' => .error (.daemonIsBusy (.daemonBusy request)) w'
    | .error e w' => .error (.genericTransferError e) w'

/-- `wallet_rpc_server::on_transfer`; the response is the transaction's hash.
Addresses and aliases are looked up outside. -/
def onTransfer (getTransferAddress : Blob → Option AccountPublicAddress) (te : TransferEnv)
    (req : TransferRequest) : EStateM TransferFault Wallet2 Hash := do
  let tx ← sendRequested getTransferAddress te req
  return getTransactionHash te.we.env tx

/-! ## What a text denotes -/

/-- The id of 32 bytes a text denotes in hexadecimal. -/
def denotedId (paymentIdHex : Blob) : Option Hash := (denotedBytes paymentIdHex).bind hashOfBytes

theorem parsePaymentId_denoted {s : Blob} {id : Hash} (h : denotedId s = some id) :
    parsePaymentIdFromHexStr s = some id := by
  obtain ⟨bytes, hbytes, hid⟩ := Option.bind_eq_some_iff.1 h
  unfold parsePaymentIdFromHexStr
  rw [parseHexstrToBinbuff_denoted hbytes]
  exact hid

/-! ## The extra field and back -/

/-- The user data of an id. -/
def paymentIdData (paymentId : Blob) : Blob :=
  txUserDataTagPaymentId :: UInt8.ofNat paymentId.length :: paymentId

/-- A public-key entry, or none. -/
def keyField : Option PublicKey → Blob
  | none => []
  | some key => txExtraTagPubkey :: bytesOfPod 32 key.toNat

theorem setPaymentIdToTxExtra_ok {extra paymentId : Blob} (hsome : 1 ≤ paymentId.length)
    (hshort : paymentId.length < txMaxPaymentIdSize) (hfree : txExtraTagUserData ∉ extra) :
    setPaymentIdToTxExtra extra paymentId =
      (true, extra ++ txExtraTagUserData :: UInt8.ofNat (paymentIdData paymentId).length ::
        paymentIdData paymentId) := by
  have hne : paymentId ≠ [] := by
    rintro rfl
    cases hsome
  unfold setPaymentIdToTxExtra
  rw [if_neg (not_or.2 ⟨hne, Nat.not_le.2 hshort⟩), if_neg hfree]
  rfl

/-- The length is read back through a signed `char`: from 128 on it is negative,
and all there is is taken, which is the id. -/
theorem getPaymentIdFromUserData_paymentIdData {paymentId : Blob}
    (hshort : paymentId.length < txMaxPaymentIdSize) :
    getPaymentIdFromUserData (paymentIdData paymentId) = some paymentId := by
  have hlen : (UInt8.ofNat paymentId.length).toNat = paymentId.length := by
    unfold txMaxPaymentIdSize at hshort
    exact UInt8.toNat_ofNat_of_lt' (show _ < 256 by omega)
  unfold paymentIdData
  simp only [getPaymentIdFromUserData]
  rw [if_neg (fun h => h rfl), hlen, List.take_length]
  split <;> rfl

section

variable {extra tail : Blob} {w : ExtraWalk}

/-- What the walk has found so far, and that it is not in the padding yet. -/
structure WalkedTo (extra tail : Blob) (w : ExtraWalk) (keyFound dataFound : Bool)
    (data : Blob) : Prop where
  behind : Behind extra w.i tail
  unpadded : w.paddingStarted = false
  keyFound : w.txExtraTagPubkeyFound = keyFound
  dataFound : w.txExtraUserDataFound = dataFound
  data : w.info.mUserDataBlob = data
  unnamed : w.info.mAlias = AliasInfo.empty

variable {keyFound dataFound : Bool} {data : Blob}

theorem WalkedTo.finished (h : WalkedTo extra [] w keyFound dataFound data) {fuel : Nat}
    (hfuel : 0 < fuel) : extraLoop extra fuel w = .ok (true, w) := by
  obtain ⟨fuel, rfl⟩ : ∃ f, fuel = f + 1 := ⟨fuel - 1, by omega⟩
  have hend := h.behind.length
  rw [List.length_nil, Nat.add_zero] at hend
  unfold extraLoop
  rw [if_pos hend.symm]

/-- Over a key, if there is one. -/
theorem WalkedTo.key (o : Option PublicKey)
    (h : WalkedTo extra (keyField o ++ tail) w keyFound dataFound data)
    (hfirst : o = none ∨ keyFound = false) (fuel : Nat) :
    ∃ w' fuel', fuel ≤ fuel' ∧ extraLoop extra (fuel + 1) w = extraLoop extra fuel' w' ∧
      WalkedTo extra tail w' (keyFound || o.isSome) dataFound data := by
  cases o with
  | none =>
    refine ⟨w, fuel + 1, Nat.le_succ fuel, rfl, h.behind, h.unpadded, ?_, h.dataFound, h.data,
      h.unnamed⟩
    rw [h.keyFound, Option.isSome_none, Bool.or_false]
  | some key =>
    have hnew : keyFound = false := hfirst.resolve_left nofun
    have hlen := h.behind.length
    have hkey : (keyField (some key)).length = 33 := by
      show (txExtraTagPubkey :: bytesOfPod 32 key.toNat).length = 33
      rw [List.length_cons, bytesOfPod_length]
    rw [List.length_append, hkey] at hlen
    have hskip := h.behind.skip
    rw [hkey] at hskip
    obtain ⟨before, hextra, hi⟩ := h.behind
    have hstep := extraStep_pubkey_behind key (hextra.trans (List.append_assoc _ _ _).symm) hi
      h.unpadded (h.keyFound.trans hnew)
    refine ⟨_, fuel, Nat.le_refl fuel, extraLoop_step (by omega) hstep fuel, hskip, h.unpadded, ?_,
      h.dataFound, h.data, h.unnamed⟩
    rw [Option.isSome_some, Bool.or_true]

/-- A second key ends it. -/
theorem WalkedTo.secondKey {key : PublicKey}
    (h : WalkedTo extra (keyField (some key) ++ tail) w true dataFound data) (fuel : Nat) :
    extraLoop extra (fuel + 1) w = .ok (false, w) := by
  have hlen := h.behind.length
  rw [List.length_append] at hlen
  have hkey : 0 < (keyField (some key)).length := Nat.succ_pos _
  have htag : byteAt extra w.i = .ok txExtraTagPubkey := h.behind.byte
  unfold extraLoop extraStep
  rw [if_neg (by omega), htag]
  simp only [bind, Except.bind, pure, Except.pure]
  rw [if_neg (show ¬w.paddingStarted = true by rw [h.unpadded]; exact Bool.false_ne_true),
    if_pos trivial, if_pos (Or.inr h.keyFound)]

/-- Over the id. -/
theorem WalkedTo.paymentId {paymentId : Blob} (hshort : paymentId.length < txMaxPaymentIdSize)
    (h : WalkedTo extra ((txExtraTagUserData :: UInt8.ofNat (paymentIdData paymentId).length ::
      paymentIdData paymentId) ++ tail) w keyFound false []) (fuel : Nat) :
    ∃ w', extraLoop extra (fuel + 1) w = extraLoop extra fuel w' ∧
      WalkedTo extra tail w' keyFound true (paymentIdData paymentId) := by
  have hdata : (paymentIdData paymentId).length = paymentId.length + 2 := rfl
  have hlen := h.behind.length
  rw [List.length_append, List.length_cons, List.length_cons] at hlen
  have hskip := h.behind.skip
  rw [List.length_cons, List.length_cons, show w.i + ((paymentIdData paymentId).length + 1 + 1) =
    w.i + 2 + (paymentIdData paymentId).length by omega] at hskip
  unfold txMaxPaymentIdSize at hshort
  have hbyte : UInt8.ofNat (paymentIdData paymentId).length ≠ 0 := by
    intro hzero
    have hback : (UInt8.ofNat (paymentIdData paymentId).length).toNat = _ :=
      UInt8.toNat_ofNat_of_lt' (show (paymentIdData paymentId).length < 256 by omega)
    rw [hzero, hdata] at hback
    cases hback
  obtain ⟨before, hextra, hi⟩ := h.behind
  have hstep := extraStep_userData (hextra.trans (List.append_assoc _ _ _).symm) hi (by omega)
    h.unpadded h.dataFound
  rw [if_pos hbyte] at hstep
  exact ⟨_, extraLoop_step (by omega) hstep fuel, hskip, h.unpadded, h.keyFound, rfl, rfl,
    h.unnamed⟩

end

/-- An extra field with an id, in front of a key or behind one. -/
def idField (base appended : Option PublicKey) (paymentId : Blob) : Blob :=
  keyField base ++ ((txExtraTagUserData :: UInt8.ofNat (paymentIdData paymentId).length ::
    paymentIdData paymentId) ++ (keyField appended ++ []))

/-- With one key at most the id is what is read. -/
theorem parse_idField (env : Env) {tx : TransactionPrefix} {base appended : Option PublicKey}
    {paymentId : Blob} (hshort : paymentId.length < txMaxPaymentIdSize)
    (hone : base = none ∨ appended = none) (hextra : tx.extra = idField base appended paymentId) :
    ∃ info, parseAndValidateTxExtra env tx = .ok (true, info) ∧
      info.mUserDataBlob = paymentIdData paymentId := by
  have hlen : 4 ≤ tx.extra.length := by
    rw [hextra]
    unfold idField paymentIdData
    simp only [List.length_append, List.length_cons]
    omega
  have hstart : WalkedTo tx.extra (idField base appended paymentId) ExtraWalk.start false false [] :=
    ⟨⟨[], hextra, rfl⟩, rfl, rfl, rfl, rfl, rfl⟩
  obtain ⟨w₁, fuel₁, hfuel₁, hloop₁, hwalked₁⟩ := hstart.key base (Or.inr rfl)
    (2 * tx.extra.length + 1)
  obtain ⟨f, rfl⟩ : ∃ f, fuel₁ = f + 1 := ⟨fuel₁ - 1, by omega⟩
  obtain ⟨w₂, hloop₂, hwalked₂⟩ := hwalked₁.paymentId hshort f
  obtain ⟨g, rfl⟩ : ∃ g, f = g + 1 := ⟨f - 1, by omega⟩
  have hfirst : appended = none ∨ (false || base.isSome) = false := by
    rcases hone with hbase | happended
    · exact Or.inr (by rw [hbase]; rfl)
    · exact Or.inl happended
  obtain ⟨w₃, fuel₃, hfuel₃, hloop₃, hwalked₃⟩ := hwalked₂.key appended hfirst g
  have hloop : extraLoop tx.extra (2 * tx.extra.length + 2) ExtraWalk.start = .ok (true, w₃) := by
    rw [hloop₁, hloop₂, hloop₃]
    exact hwalked₃.finished (by omega)
  have hcheck : checkMakeAliasTx env tx w₃.info = true := by
    unfold checkMakeAliasTx
    rw [hwalked₃.unnamed, if_pos (.inr rfl)]
  refine ⟨w₃.info, ?_, hwalked₃.data⟩
  unfold parseAndValidateTxExtra
  rw [hloop]
  simp only [bind, Except.bind, pure, Except.pure, hcheck]
  rfl

/-- With two of them nothing is. -/
theorem parse_idField_twoKeys (env : Env) {tx : TransactionPrefix} {key key' : PublicKey}
    {paymentId : Blob} (hshort : paymentId.length < txMaxPaymentIdSize)
    (hextra : tx.extra = idField (some key) (some key') paymentId) :
    ∃ info, parseAndValidateTxExtra env tx = .ok (false, info) := by
  have hlen : 4 ≤ tx.extra.length := by
    rw [hextra]
    unfold idField paymentIdData
    simp only [List.length_append, List.length_cons]
    omega
  have hstart : WalkedTo tx.extra (idField (some key) (some key') paymentId) ExtraWalk.start false
      false [] := ⟨⟨[], hextra, rfl⟩, rfl, rfl, rfl, rfl, rfl⟩
  obtain ⟨w₁, fuel₁, hfuel₁, hloop₁, hwalked₁⟩ := hstart.key (some key) (Or.inr rfl)
    (2 * tx.extra.length + 1)
  obtain ⟨f, rfl⟩ : ∃ f, fuel₁ = f + 1 := ⟨fuel₁ - 1, by omega⟩
  obtain ⟨w₂, hloop₂, hwalked₂⟩ := hwalked₁.paymentId hshort f
  obtain ⟨g, rfl⟩ : ∃ g, f = g + 1 := ⟨f - 1, by omega⟩
  refine ⟨w₂.info, ?_⟩
  unfold parseAndValidateTxExtra
  rw [hloop₁, hloop₂, hwalked₂.secondKey g]
  rfl

/-- The id is read back from in front of the public key. -/
theorem getPaymentId_set (env : Env) {tx : Transaction} (id : Hash) (key : PublicKey)
    (hextra : tx.extra = (setPaymentIdToTxExtra [] (bytesOfPod 32 id.toNat)).2 ++
      txExtraTagPubkey :: bytesOfPod 32 key.toNat) :
    getPaymentIdFromTxExtra env tx = some id := by
  have hid := bytesOfPod_length 32 id.toNat
  have hval : podOfBytes (bytesOfPod 32 id.toNat) = id.toNat :=
    podOfBytes_bytesOfPod (show id.toNat < 256 ^ 32 from id.isLt)
  have hshort : (bytesOfPod 32 id.toNat).length < txMaxPaymentIdSize := by
    rw [hid]
    decide
  rw [setPaymentIdToTxExtra_ok (by omega) hshort List.not_mem_nil] at hextra
  have hfield : tx.extra = idField none (some key) (bytesOfPod 32 id.toNat) := by
    rw [hextra]
    unfold idField
    rw [List.append_nil]
    rfl
  obtain ⟨info, hparse, hdata⟩ := parse_idField env hshort (Or.inl rfl) hfield
  unfold getPaymentIdFromTxExtra
  rw [hparse]
  simp only
  rw [hdata, getPaymentIdFromUserData_paymentIdData hshort]
  simp only
  rw [if_pos hid, hval, BitVec.ofNat_toNat, BitVec.setWidth_eq]

/-- `get_payment_id_from_tx_extra` into a string. -/
def getPaymentIdBlobFromTxExtra (env : Env) (tx : Transaction) : Option Blob :=
  match parseAndValidateTxExtra env tx.toTransactionPrefix with
  | .ok (true, info) =>
    if info.mUserDataBlob = [] then none else getPaymentIdFromUserData info.mUserDataBlob
  | _ => none

/-- An id goes into the extra field and is read back from it, on any transaction
that is no coinbase. -/
def PaymentIdKept (env : Env) (base appended : Option PublicKey) (paymentId : Blob) : Prop :=
  (setPaymentIdToTxExtra (keyField base) paymentId).1 = true ∧
    ∀ tx : Transaction, isCoinbase tx.toTransactionPrefix = false →
      tx.extra = (setPaymentIdToTxExtra (keyField base) paymentId).2 ++ keyField appended →
      getPaymentIdBlobFromTxExtra env tx = some paymentId

theorem userDataTag_mem_keyField (base : Option PublicKey) :
    txExtraTagUserData ∈ keyField base ↔
      ∃ key, base = some key ∧ txExtraTagUserData ∈ bytesOfPod 32 key.toNat := by
  cases base with
  | none => exact ⟨nofun, nofun⟩
  | some key =>
    constructor
    · intro hmem
      rcases List.mem_cons.1 hmem with htag | hmem
      · exact absurd htag (by decide)
      · exact ⟨key, rfl, hmem⟩
    · rintro ⟨key', hkey, hmem⟩
      cases hkey
      exact List.mem_cons_of_mem _ hmem

/-- An id is kept unless the key in front of it has the tag of the user data among
its bytes; and there must be no second key behind. -/
theorem paymentIdKept_iff (env : Env) (base appended : Option PublicKey) (paymentId : Blob)
    (hsome : 1 ≤ paymentId.length) (hshort : paymentId.length < txMaxPaymentIdSize) :
    PaymentIdKept env base appended paymentId ↔
      (∀ key, base = some key → txExtraTagUserData ∉ bytesOfPod 32 key.toNat) ∧
        (base = none ∨ appended = none) := by
  by_cases hfree : txExtraTagUserData ∈ keyField base
  · obtain ⟨key, hbase, hmem⟩ := (userDataTag_mem_keyField base).1 hfree
    constructor
    · rintro ⟨hset, -⟩
      unfold setPaymentIdToTxExtra at hset
      rw [if_pos hfree] at hset
      split at hset <;> cases hset
    · rintro ⟨hno, -⟩
      exact absurd hmem (hno key hbase)
  · have hset := setPaymentIdToTxExtra_ok hsome hshort hfree
    have hno : ∀ key, base = some key → txExtraTagUserData ∉ bytesOfPod 32 key.toNat :=
      fun key hbase hmem => hfree ((userDataTag_mem_keyField base).2 ⟨key, hbase, hmem⟩)
    have hfield : (setPaymentIdToTxExtra (keyField base) paymentId).2 ++ keyField appended =
        idField base appended paymentId := by
      rw [hset]
      unfold idField
      rw [List.append_nil, List.append_assoc]
    unfold PaymentIdKept
    rw [hfield]
    constructor
    · rintro ⟨-, hread⟩
      refine ⟨hno, ?_⟩
      by_contra hboth
      obtain ⟨hbase, happended⟩ := not_or.1 hboth
      obtain ⟨key, rfl⟩ := Option.ne_none_iff_exists'.1 hbase
      obtain ⟨key', rfl⟩ := Option.ne_none_iff_exists'.1 happended
      let carrier : TransactionPrefix := ⟨1, 0, [], [], idField (some key) (some key') paymentId⟩
      have hextra : carrier.extra = idField (some key) (some key') paymentId := rfl
      have hlost := hread ⟨carrier, []⟩ rfl hextra
      obtain ⟨info, hparse⟩ := parse_idField_twoKeys env hshort hextra
      unfold getPaymentIdBlobFromTxExtra at hlost
      rw [hparse] at hlost
      cases hlost
    · rintro ⟨-, hone⟩
      refine ⟨by rw [hset], ?_⟩
      intro tx _ hextra
      obtain ⟨info, hparse, hdata⟩ := parse_idField env hshort hone hextra
      unfold getPaymentIdBlobFromTxExtra
      rw [hparse]
      simp only
      rw [hdata, if_neg (show paymentIdData paymentId ≠ [] from List.cons_ne_nil _ _),
        getPaymentIdFromUserData_paymentIdData hshort]

/-- A long id behind a key of ones. -/
theorem paymentIdKept_iff_devnet :
    PaymentIdKept Devnet.env (some 1) none (List.replicate 200 9) ↔
      (∀ key, some (1 : PublicKey) = some key → txExtraTagUserData ∉ bytesOfPod 32 key.toNat) ∧
        (some (1 : PublicKey) = none ∨ (none : Option PublicKey) = none) :=
  paymentIdKept_iff Devnet.env (some 1) none (List.replicate 200 9)
    (by rw [List.length_replicate]; decide) (by rw [List.length_replicate]; decide)

/-- A key with that byte: the id of one byte is refused. -/
theorem paymentId_refused : ¬ PaymentIdKept Devnet.env (some 2) none [7] := by
  rintro ⟨hset, -⟩
  exact absurd hset (by decide)

/-! ## What is sent -/

theorem constructTx_extra {te : TransferEnv} {acc : AccountBase} {sources : List TxSourceEntry}
    {destinations : List TxDestinationEntry} {extra : Blob} {unlockTime : UInt64} {tx : Transaction}
    (h : constructTx te acc sources destinations extra unlockTime = some tx) :
    tx.extra = extra ++ txExtraTagPubkey :: bytesOfPod 32 (te.kd.pub te.txkey).toNat ∧
      ∀ other, ∃ tx', constructTx te acc sources destinations other unlockTime = some tx' ∧
        tx'.vin = tx.vin := by
  unfold constructTx at h ⊢
  cases hvin : constructInputs te.we.img acc sources with
  | none =>
    rw [hvin] at h
    cases h
  | some vin =>
    rw [hvin] at h
    cases hvout : constructDestOuts te.kd te.txkey 0 (te.shuffle.sort destinations) with
    | none =>
      rw [hvout] at h
      cases h
    | some vout =>
      rw [hvout] at h
      simp only at h ⊢
      by_cases hmoney : sumAmounts (sources.map (·.amount)) < sumAmounts (vout.map (·.amount))
      · rw [if_pos hmoney] at h
        cases h
      · rw [if_neg hmoney] at h
        cases h
        refine ⟨rfl, ?_⟩
        intro other
        rw [if_neg hmoney]
        exact ⟨_, rfl, rfl⟩

/-- A transaction ends with its public key, behind the extra field ordered; the
rest of the building does not look at that field. -/
theorem buildTransfer_extra {te : TransferEnv} {o : TransferOrder} {w : Wallet2}
    {built : BuiltTransfer} (h : buildTransfer te o w = .ok built) :
    built.tx.extra = o.extra ++ txExtraTagPubkey :: bytesOfPod 32 (te.kd.pub te.txkey).toNat ∧
      ∀ other, ∃ built', buildTransfer te { o with extra := other } w = .ok built' ∧
        built'.tx.vin = built.tx.vin := by
  obtain ⟨outs, sources, entries, hneeded, hfound, henough, houts, hsources, hchange, hsplit, htx⟩ :=
    buildTransfer_eq_ok.1 h
  obtain ⟨hextra, hany⟩ := constructTx_extra htx
  refine ⟨hextra, fun other => ?_⟩
  obtain ⟨tx', htx', hvin⟩ := hany other
  exact ⟨{ built with tx := tx' }, buildTransfer_eq_ok.2 ⟨outs, sources, entries, hneeded, hfound,
    henough, houts, hsources, hchange, hsplit, htx'⟩, hvin⟩

section

variable {getTransferAddress : Blob → Option AccountPublicAddress} {te : TransferEnv}
  {req : TransferRequest} {w w' : Wallet2}

theorem sendRequested_ok {tx : Transaction}
    (h : sendRequested getTransferAddress te req w = .ok tx w') :
    ∃ dsts, transfer te (requestOrder req dsts) w = .ok tx w' := by
  unfold sendRequested at h
  split at h
  · cases h
  · next dsts _ =>
    split at h
    · next htransfer =>
      cases h
      exact ⟨dsts, htransfer⟩
    · cases h
    · cases h

/-- What goes out carries the id that was parsed. -/
theorem sendRequested_id {tx : Transaction} {id : Hash}
    (h : sendRequested getTransferAddress te req w = .ok tx w')
    (hid : parsePaymentIdFromHexStr req.paymentIdHex = some id) :
    getPaymentIdFromTxExtra te.we.env tx = some id := by
  obtain ⟨dsts, htransfer⟩ := sendRequested_ok h
  obtain ⟨built, hbuilt, rfl, -⟩ := transfer_built htransfer
  have hextra := (buildTransfer_extra hbuilt).1
  refine getPaymentId_set te.we.env id (te.kd.pub te.txkey) ?_
  rw [hextra]
  unfold requestOrder requestExtra
  rw [hid]

end

/-- A payment carries the requested payment id or is not made. -/
structure CarriesId (getTransferAddress : Blob → Option AccountPublicAddress) (te : TransferEnv)
    (req : TransferRequest) (w : Wallet2) : Prop where
  carried : ∀ hash w', onTransfer getTransferAddress te req w = .ok hash w' →
    req.paymentIdHex ≠ [] →
    ∃ tx id, sendRequested getTransferAddress te req w = .ok tx w' ∧
      hash = getTransactionHash te.we.env tx ∧ denotedId req.paymentIdHex = some id ∧
      getPaymentIdFromTxExtra te.we.env tx = some id
  refused : req.paymentIdHex ≠ [] → denotedId req.paymentIdHex = none →
    ∃ fault w', onTransfer getTransferAddress te req w = .error fault w'

/-- It does for an id and for none. -/
theorem carriesId_of_denoted (getTransferAddress : Blob → Option AccountPublicAddress)
    (te : TransferEnv) (req : TransferRequest) (w : Wallet2)
    (h : req.paymentIdHex = [] ∨ (denotedId req.paymentIdHex).isSome = true) :
    CarriesId getTransferAddress te req w := by
  constructor
  · intro hash w' hsent hne
    obtain ⟨id, hid⟩ := Option.isSome_iff_exists.1 (h.resolve_left hne)
    unfold onTransfer at hsent
    obtain ⟨tx, v, hsend, hpure⟩ := bind_eq_ok.1 hsent
    cases hpure
    exact ⟨tx, id, hsend, rfl, hid, sendRequested_id hsend (parsePaymentId_denoted hid)⟩
  · intro hne hnone
    have hsome := h.resolve_left hne
    rw [hnone] at hsome
    cases hsome

namespace Devnet

/-- Thirteen coins and a bit to a stranger, under that payment id. -/
def requesting (paymentIdHex : Blob) : TransferRequest where
  destinations := [([], 1300000000005)]
  fee := defaultFee
  mixin := 0
  unlockTime := 0
  paymentIdHex

/-- Its size does not depend on the extra field here, so that one goes out with
any. -/
theorem transfer_anyExtra (extra : Blob) :
    ∃ tx w', transfer transferEnv { order 1300000000005 with extra := extra } savedPurse =
      .ok tx w' := by
  have hruns : (returned (transfer transferEnv (order 1300000000005) savedPurse)).isSome = true := by
    decide +kernel
  cases h : transfer transferEnv (order 1300000000005) savedPurse with
  | error e w' =>
    rw [h] at hruns
    cases hruns
  | ok tx w' =>
    unfold transfer at h
    obtain ⟨built, v, hread, hsend⟩ := bind_eq_ok.1 h
    obtain ⟨hbuilt, rfl⟩ := reads_eq_ok hread
    obtain ⟨u, v, hsent, -⟩ := bind_eq_ok.1 hsend
    obtain ⟨hsent, -⟩ := reads_eq_ok hsent
    obtain ⟨built', hbuilt', hvin⟩ := (buildTransfer_extra hbuilt).2 extra
    have hsame : sendBuilt transferEnv built'.tx savedPurse =
        sendBuilt transferEnv built.tx savedPurse := by
      unfold sendBuilt getObjectBlobsize isCoinbase
      rw [hvin]
      rfl
    unfold transfer
    rw [bind_of_ok (reads_of_ok hbuilt'), bind_of_ok (reads_of_ok (hsame.trans hsent))]
    exact ⟨_, _, rfl⟩

theorem sendRequested_any (paymentIdHex : Blob) :
    ∃ tx w', sendRequested (fun _ => some stranger) transferEnv (requesting paymentIdHex)
      savedPurse = .ok tx w' := by
  obtain ⟨tx, w', h⟩ := transfer_anyExtra (requestExtra paymentIdHex)
  refine ⟨tx, w', ?_⟩
  unfold sendRequested
  rw [show requestDestinations (fun _ => some stranger) (requesting paymentIdHex).destinations =
    .ok [⟨1300000000005, stranger⟩] from rfl]
  simp only
  rw [show requestOrder (requesting paymentIdHex) [⟨1300000000005, stranger⟩] =
    { order 1300000000005 with extra := requestExtra paymentIdHex } from rfl, h]

end Devnet

/-- Every payment carries its id for the texts that denote one, and for none at
all; for any other text there is a payment made that should not have been. -/
theorem payment_carries_id_iff (paymentIdHex : Blob) :
    (∀ getTransferAddress te req w, req.paymentIdHex = paymentIdHex →
      CarriesId getTransferAddress te req w) ↔
    (paymentIdHex = [] ∨ (denotedId paymentIdHex).isSome = true) := by
  constructor
  · intro hall
    by_contra hbad
    obtain ⟨hne, hsome⟩ := not_or.1 hbad
    have hnone : denotedId paymentIdHex = none := Option.not_isSome_iff_eq_none.1 hsome
    have hcarries := hall (fun _ => some Devnet.stranger) Devnet.transferEnv
      (Devnet.requesting paymentIdHex) Devnet.savedPurse rfl
    obtain ⟨fault, w', hfault⟩ := hcarries.refused hne hnone
    obtain ⟨tx, v, hsent⟩ := Devnet.sendRequested_any paymentIdHex
    unfold onTransfer at hfault
    rw [bind_of_ok hsent] at hfault
    cases hfault
  · rintro h getTransferAddress te req w rfl
    exact carriesId_of_denoted getTransferAddress te req w h

/-- A request under the id "zz": the payment is made, under none. -/
theorem payment_without_id :
    ¬ CarriesId (fun _ => some Devnet.stranger) Devnet.transferEnv
      (Devnet.requesting [122, 122]) Devnet.savedPurse := by
  intro hcarries
  obtain ⟨fault, w', hfault⟩ := hcarries.refused (by decide) (by decide)
  obtain ⟨tx, v, hsent⟩ := Devnet.sendRequested_any [122, 122]
  unfold onTransfer at hfault
  rw [bind_of_ok hsent] at hfault
  cases hfault

end DarknetSpace
