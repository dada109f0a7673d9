import DarknetSpace.Lib.StateExn
import DarknetSpace.Basic.Types

/-!
# Changing the password (`wallet2::changepassword`)

The keys file is renamed away, written anew under the new password and read back
to see that it can be; then the copy is removed. Where the write or the reading
back fails the copy is meant to go back in place. But `load_keys` throws where its
caller waits for `false`, and so nothing goes back; nor does it if the renaming
itself fails.

The disk has the two files, and what they have been on the way. Which operations
work, and what a bad write leaves, is a `Disruption`.

`KeysSafe` is the condition, said of the operations that work (`Disruption`), and
`KeysKept` that the keys file can be loaded under the right password at the end, and one
of the two files all along. Main result: `changepassword_keeps_iff`, for every wallet
and every pattern of failures.
-/

namespace DarknetSpace

open StateExn

/-- `keys_file_data`. -/
structure KeysFileData where
  iv : UInt64
  accountData : Blob
  deriving DecidableEq

/-- Serialization and `chacha8`, and the check of the keys against each other that
is part of decrypting. `encrypt` and `dump` may refuse. -/
structure KeysFormat (α : Type) where
  encrypt : (account : α) → (password : Blob) → (iv : UInt64) → Option Blob
  dump : KeysFileData → Option Blob
  parse : Blob → Option KeysFileData
  decrypt : KeysFileData → (password : Blob) → Option α

/-- The account a file has under a password. -/
def KeysFormat.yields {α : Type} (f : KeysFormat α) (file : Option Blob) (password : Blob) :
    Option α :=
  file.bind fun buf => (f.parse buf).bind fun data => f.decrypt data password

inductive KeysError where
  | fileNotFound
  | fileReadError
  | walletInternal
  | invalidPassword
  /-- `boost::filesystem::filesystem_error` -/
  | filesystem
  deriving DecidableEq

/-- `m_keys_file`, its `.bak`, and the two as they were before each change. -/
structure KeysDisk where
  keys : Option Blob
  bak : Option Blob
  passed : List (Option Blob × Option Blob)
  deriving DecidableEq

abbrev KeysM := EStateM KeysError KeysDisk

/-- What becomes of a write: the file passes through some contents, and then
success is reported, or not. What stands there in the end may be something else
than what was written. -/
inductive SaveOutcome where
  | saved (passing : List Blob) (instead : Option Blob)
  | failed (passing : List Blob) (left : Option Blob)

/-- What each operation comes to, in the order of the source: whether a file is
said to exist, can be read, and so on. -/
structure Disruption where
  walletExists : Bool
  keysExists : Bool
  oldReadable : Bool
  bakExists : Bool
  staleRemoved : Bool
  renamed : Bool
  save : SaveOutcome
  renamedBack : Bool
  newReadable : Bool
  bakRemoved : Bool

/-! ## File operations -/

def KeysDisk.become (keys bak : Option Blob) (d : KeysDisk) : KeysDisk :=
  ⟨keys, bak, d.passed ++ [(d.keys, d.bak)]⟩

/-- `tools::replace_file(m_keys_file, filename)`. -/
def renameAway (works : Bool) : KeysM Bool := fun d =>
  if works ∧ d.keys.isSome then .ok true (d.become none d.keys) else .ok false d

/-- `tools::replace_file(filename, m_keys_file)`. -/
def renameBack (works : Bool) : KeysM Bool := fun d =>
  if works ∧ d.bak.isSome then .ok true (d.become d.bak none) else .ok false d

/-- `boost::filesystem::detail::remove(filename)`. -/
def removeBak (works : Bool) : KeysM Unit := fun d =>
  if works then .ok () (d.become d.keys none) else .error .filesystem d

/-- An old copy is removed, if one is seen. -/
def removeStale (bakExists works : Bool) : KeysM Unit :=
  if bakExists then removeBak works else pure ()

def KeysDisk.write (contents : List (Option Blob)) (d : KeysDisk) : KeysDisk :=
  contents.foldl (fun d keys => d.become keys d.bak) d

/-- `save_string_to_file`. -/
def saveStringToFile (save : SaveOutcome) (str : Blob) : KeysM Bool := fun d =>
  match save with
  | .saved passing instead => .ok true (d.write (passing.map some ++ [some (instead.getD str)]))
  | .failed passing left => .ok false (d.write (passing.map some ++ [left]))

section

variable {α : Type} (f : KeysFormat α)

/-- `store_keys`. -/
def storeKeys (save : SaveOutcome) (account : α) (password : Blob) (iv : UInt64) : KeysM Bool :=
  match f.encrypt account password iv with
  | none => pure false
  | some accountData =>
    match f.dump ⟨iv, accountData⟩ with
    | none => pure false
    | some buf => saveStringToFile save buf

/-- `load_keys`: it throws, and never returns `false`. -/
def loadKeys (readable : Bool) (password : Blob) : KeysM (Bool × α) := fun d =>
  match if readable then d.keys else none with
  | none => .error .fileReadError d
  | some buf =>
    match f.parse buf with
    | none => .error .walletInternal d
    | some data =>
      match f.decrypt data password with
      | none => .error .invalidPassword d
      | some account => .ok (true, account) d

/-- `changepassword` once the old file is out of the way. -/
def rewriteKeys (x : Disruption) (mAccount : α) (newPassword : Blob) (iv : UInt64) : KeysM Bool := do
  let stored ← storeKeys f x.save mAccount newPassword iv
  if stored = false then
    let _ ← renameBack x.renamedBack
    return false
  else
    let loaded ← loadKeys f x.newReadable newPassword
    if loaded.1 = false then
      let _ ← renameBack x.renamedBack
      return false
    else
      removeBak x.bakRemoved
      return true

/-- `changepassword` behind the first `load_keys`. -/
def replaceKeys (x : Disruption) (mAccount : α) (newPassword : Blob) (iv : UInt64) : KeysM Bool := do
  removeStale x.bakExists x.staleRemoved
  let renamed ← renameAway x.renamed
  if renamed = false then return false
  else rewriteKeys f x mAccount newPassword iv

/-- `changepassword`. -/
def changepassword (x : Disruption) (mAccount : α) (oldPassword newPassword : Blob) (iv : UInt64) :
    KeysM Bool := do
  if x.walletExists = false then throw .fileNotFound
  else if x.keysExists = false then throw .fileNotFound
  else
    let loaded ← loadKeys f x.oldReadable oldPassword
    if loaded.1 = false then return false
    else replaceKeys f x mAccount newPassword iv

end

/-! ## What is left of the keys -/

variable {α : Type} {f : KeysFormat α}

/-- What the write reports, and what stands in the keys file behind it. -/
def storedKeys (f : KeysFormat α) (save : SaveOutcome) (account : α) (password : Blob)
    (iv : UInt64) : Bool × Option Blob :=
  match (f.encrypt account password iv).bind fun accountData => f.dump ⟨iv, accountData⟩ with
  | none => (false, none)
  | some buf =>
    match save with
    | .saved _ instead => (true, some (instead.getD buf))
    | .failed _ left => (false, left)

/-- Every operation up to the renaming works. -/
def Disruption.Reaches (x : Disruption) : Prop :=
  x.walletExists = true ∧ x.keysExists = true ∧ x.oldReadable = true ∧
    (x.bakExists = true → x.staleRemoved = true) ∧ x.renamed = true

/-- Once the file is out of the way, a write that fails is followed by a renaming
that works, and one that does not leaves a file that is read back, has the account
under the new password, and is the only one left in the end. Or else the account
still is in what stands there, under the old password. -/
def KeysSafe (f : KeysFormat α) (x : Disruption) (mAccount account : α)
    (oldPassword newPassword : Blob) (iv : UInt64) : Prop :=
  x.Reaches →
    let stored := storedKeys f x.save mAccount newPassword iv
    if stored.1 = true ∧ x.newReadable = true ∧ (f.yields stored.2 newPassword).isSome = true ∧
        x.bakRemoved = true then
      f.yields stored.2 newPassword = some account
    else
      (stored.1 = false ∧ x.renamedBack = true) ∨ f.yields stored.2 oldPassword = some account

/-- The account is in one of the two files, under one of the two passwords. -/
def InOneFile (f : KeysFormat α) (account : α) (oldPassword newPassword : Blob)
    (files : Option Blob × Option Blob) : Prop :=
  ∃ file ∈ [files.1, files.2], ∃ password ∈ [oldPassword, newPassword],
    f.yields file password = some account

/-- The keys are not lost. -/
structure KeysKept (f : KeysFormat α) (account : α) (oldPassword newPassword : Blob)
    (r : EStateM.Result KeysError KeysDisk Bool) : Prop where
  unchanged : returned r ≠ some true → f.yields (stateOf r).keys oldPassword = some account
  changed : returned r = some true → f.yields (stateOf r).keys newPassword = some account
  between : ∀ files ∈ (stateOf r).passed ++ [((stateOf r).keys, (stateOf r).bak)],
    InOneFile f account oldPassword newPassword files

/-! ## What the operations do -/

/-- The file is read and has an account, or an exception says it does not. -/
theorem loadKeys_cases (f : KeysFormat α) (readable : Bool) (password : Blob) (d : KeysDisk) :
    (∃ account, readable = true ∧ f.yields d.keys password = some account ∧
      loadKeys f readable password d = .ok (true, account) d) ∨
    (¬ (readable = true ∧ (f.yields d.keys password).isSome = true) ∧
      ∃ ex, loadKeys f readable password d = .error ex d) := by
  unfold loadKeys KeysFormat.yields
  cases readable with
  | false => exact .inr ⟨fun h => Bool.false_ne_true h.1, _, rfl⟩
  | true =>
    rw [if_pos rfl]
    cases d.keys with
    | none => exact .inr ⟨fun h => Bool.false_ne_true h.2, _, rfl⟩
    | some buf =>
      simp only [Option.bind_some]
      cases f.parse buf with
      | none => exact .inr ⟨fun h => Bool.false_ne_true h.2, _, rfl⟩
      | some data =>
        simp only [Option.bind_some]
        cases f.decrypt data password with
        | none => exact .inr ⟨fun h => Bool.false_ne_true h.2, _, rfl⟩
        | some account => exact .inl ⟨account, trivial, rfl, rfl⟩

theorem write_append (contents : List (Option Blob)) (left : Option Blob) (d : KeysDisk) :
    (d.write (contents ++ [left])).keys = left ∧ (d.write (contents ++ [left])).bak = d.bak ∧
      ∀ files ∈ (d.write (contents ++ [left])).passed, files ∈ d.passed ∨ files.2 = d.bak := by
  induction contents generalizing d with
  | nil =>
    refine ⟨rfl, rfl, ?_⟩
    intro files hfiles
    rcases List.mem_append.1 hfiles with hmem | hlast
    · exact .inl hmem
    · rw [List.mem_singleton.1 hlast]
      exact .inr rfl
  | cons first rest ih =>
    obtain ⟨hkeys, hbak, hpassed⟩ := ih (d.become first d.bak)
    refine ⟨hkeys, hbak, ?_⟩
    intro files hfiles
    rcases hpassed files hfiles with hmem | hlater
    · rcases List.mem_append.1 hmem with hmem | hlast
      · exact .inl hmem
      · rw [List.mem_singleton.1 hlast]
        exact .inr rfl
    · exact .inr hlater

/-- Writing leaves the copy alone. -/
theorem storeKeys_ok (f : KeysFormat α) (save : SaveOutcome) (account : α) (password : Blob)
    (iv : UInt64) {d : KeysDisk} (hkeys : d.keys = none) :
    ∃ d', storeKeys f save account password iv d = .ok (storedKeys f save account password iv).1 d' ∧
      d'.keys = (storedKeys f save account password iv).2 ∧ d'.bak = d.bak ∧
      ∀ files ∈ d'.passed, files ∈ d.passed ∨ files.2 = d.bak := by
  unfold storeKeys storedKeys
  cases f.encrypt account password iv with
  | none => exact ⟨d, rfl, hkeys, rfl, fun _ hfiles => .inl hfiles⟩
  | some accountData =>
    simp only [Option.bind_some]
    cases f.dump ⟨iv, accountData⟩ with
    | none => exact ⟨d, rfl, hkeys, rfl, fun _ hfiles => .inl hfiles⟩
    | some buf =>
      cases save with
      | saved passing instead => exact ⟨_, rfl, write_append _ _ d⟩
      | failed passing left => exact ⟨_, rfl, write_append _ _ d⟩

section

variable {x : Disruption} {mAccount account : α} {oldPassword newPassword : Blob} {iv : UInt64}
  {d : KeysDisk}

theorem inOneFile_keys {files : Option Blob × Option Blob} (password : Blob)
    (h : f.yields files.1 password = some account) (hp : password ∈ [oldPassword, newPassword]) :
    InOneFile f account oldPassword newPassword files :=
  ⟨files.1, List.mem_cons_self, password, hp, h⟩

theorem inOneFile_bak {files : Option Blob × Option Blob}
    (h : f.yields files.2 oldPassword = some account) :
    InOneFile f account oldPassword newPassword files :=
  ⟨files.2, List.mem_cons_of_mem _ List.mem_cons_self, oldPassword, List.mem_cons_self, h⟩

/-- What is behind the renaming keeps the keys under exactly the condition. -/
theorem rewriteKeys_kept_iff (hkeys : d.keys = none)
    (hbak : f.yields d.bak oldPassword = some account)
    (hpassed : ∀ files ∈ d.passed, InOneFile f account oldPassword newPassword files) :
    KeysKept f account oldPassword newPassword (rewriteKeys f x mAccount newPassword iv d) ↔
      let stored := storedKeys f x.save mAccount newPassword iv
      if stored.1 = true ∧ x.newReadable = true ∧ (f.yields stored.2 newPassword).isSome = true ∧
          x.bakRemoved = true then
        f.yields stored.2 newPassword = some account
      else
        (stored.1 = false ∧ x.renamedBack = true) ∨
          f.yields stored.2 oldPassword = some account := by
  obtain ⟨d', hstore, hkeys', hbak', hpassed'⟩ :=
    storeKeys_ok f x.save mAccount newPassword iv hkeys
  have hwhile : ∀ files ∈ d'.passed, InOneFile f account oldPassword newPassword files := by
    intro files hfiles
    rcases hpassed' files hfiles with hmem | hcopy
    · exact hpassed files hmem
    · exact inOneFile_bak (hcopy ▸ hbak)
  have hnow : InOneFile f account oldPassword newPassword (d'.keys, d'.bak) :=
    inOneFile_bak (hbak' ▸ hbak)
  -- what throws, or gives up with the copy where it is
  have hleft : ∀ r : EStateM.Result KeysError KeysDisk Bool, returned r ≠ some true →
      stateOf r = d' → (KeysKept f account oldPassword newPassword r ↔
        f.yields (storedKeys f x.save mAccount newPassword iv).2 oldPassword = some account) := by
    intro r hnot hstate
    rw [← hkeys', ← hstate]
    constructor
    · intro h
      exact h.unchanged hnot
    · intro hyields
      refine ⟨fun _ => hyields, fun htrue => absurd htrue hnot, ?_⟩
      intro files hfiles
      rw [hstate] at hfiles
      rcases List.mem_append.1 hfiles with hmem | hlast
      · exact hwhile files hmem
      · rw [List.mem_singleton.1 hlast]
        exact hnow
  unfold rewriteKeys
  rw [bind_of_ok hstore]
  generalize storedKeys f x.save mAccount newPassword iv = stored at *
  obtain ⟨reported, left⟩ := stored
  simp only at hkeys' hleft ⊢
  cases reported with
  | false =>
    simp only [Bool.false_eq_true, false_and, if_false, if_true, true_and]
    by_cases hback : x.renamedBack = true
    · have hcopy : d'.bak.isSome = true := by
        rw [hbak']
        cases hnone : d.bak with
        | none =>
          rw [hnone] at hbak
          cases hbak
        | some _ => rfl
      have hrename : renameBack x.renamedBack d' = .ok true (d'.become d'.bak none) := by
        unfold renameBack
        rw [if_pos ⟨hback, hcopy⟩]
      rw [bind_of_ok hrename]
      refine ⟨fun _ => .inl hback, fun _ => ⟨?_, ?_, ?_⟩⟩
      · intro _
        show f.yields d'.bak oldPassword = some account
        rw [hbak']
        exact hbak
      · intro htrue
        cases htrue
      · intro files hfiles
        rcases List.mem_append.1 hfiles with hmem | hlast
        · rcases List.mem_append.1 hmem with hmem | hbefore
          · exact hwhile files hmem
          · rw [List.mem_singleton.1 hbefore]
            exact hnow
        · rw [List.mem_singleton.1 hlast]
          exact inOneFile_keys oldPassword (hbak' ▸ hbak) List.mem_cons_self
    · have hrename : renameBack x.renamedBack d' = .ok false d' := by
        unfold renameBack
        rw [if_neg fun hboth => hback hboth.1]
      rw [bind_of_ok hrename, hleft _ (by intro h; cases h) rfl]
      exact ⟨.inr, fun h => h.resolve_left hback⟩
  | true =>
    simp only [Bool.true_eq_false, false_and, if_false, true_and, false_or]
    rcases loadKeys_cases f x.newReadable newPassword d' with
      ⟨found, hreadable, hyields, hload⟩ | ⟨hnot, ex, hload⟩
    · rw [hkeys'] at hyields
      rw [bind_of_ok hload]
      simp only [Bool.true_eq_false, if_false]
      by_cases hremoved : x.bakRemoved = true
      · have hremove : removeBak x.bakRemoved d' = .ok () (d'.become d'.keys none) := by
          unfold removeBak
          rw [if_pos hremoved]
        rw [bind_of_ok hremove, if_pos ⟨hreadable, by rw [hyields]; rfl, hremoved⟩]
        constructor
        · intro h
          have hchanged := h.changed rfl
          rw [← hkeys']
          exact hchanged
        · intro hnew
          rw [← hkeys'] at hnew
          refine ⟨fun hfalse => absurd rfl hfalse, fun _ => hnew, ?_⟩
          intro files hfiles
          rcases List.mem_append.1 hfiles with hmem | hlast
          · rcases List.mem_append.1 hmem with hmem | hbefore
            · exact hwhile files hmem
            · rw [List.mem_singleton.1 hbefore]
              exact hnow
          · rw [List.mem_singleton.1 hlast]
            exact inOneFile_keys newPassword hnew
              (List.mem_cons_of_mem _ List.mem_cons_self)
      · have hremove : removeBak x.bakRemoved d' = .error .filesystem d' := by
          unfold removeBak
          rw [if_neg hremoved]
        rw [bind_of_error hremove, if_neg fun hall => hremoved hall.2.2]
        exact hleft _ (by intro h; cases h) rfl
    · rw [bind_of_error hload, if_neg fun hall => hnot ⟨hall.1, by rw [hkeys']; exact hall.2.1⟩]
      exact hleft _ (by intro h; cases h) rfl

/-- As long as the file is where it was the keys are kept. -/
theorem kept_of_untouched {keys : Option Blob} (hold : f.yields keys oldPassword = some account)
    {r : EStateM.Result KeysError KeysDisk Bool} (hnot : returned r ≠ some true)
    (hkeys : (stateOf r).keys = keys) (hpassed : ∀ files ∈ (stateOf r).passed, files.1 = keys) :
    KeysKept f account oldPassword newPassword r := by
  refine ⟨fun _ => hkeys ▸ hold, fun htrue => absurd htrue hnot, ?_⟩
  intro files hfiles
  have hfirst : files.1 = keys := by
    rcases List.mem_append.1 hfiles with hmem | hlast
    · exact hpassed files hmem
    · rw [List.mem_singleton.1 hlast]
      exact hkeys
  exact inOneFile_keys oldPassword (hfirst ▸ hold) List.mem_cons_self

/-- Behind the first `load_keys`: the stale copy, and the renaming. -/
theorem replaceKeys_kept_iff {keys bak : Option Blob}
    (hold : f.yields keys oldPassword = some account) (hwallet : x.walletExists = true)
    (hexists : x.keysExists = true) (hreadable : x.oldReadable = true) :
    KeysKept f account oldPassword newPassword
      (replaceKeys f x mAccount newPassword iv ⟨keys, bak, []⟩) ↔
    KeysSafe f x mAccount account oldPassword newPassword iv := by
  have hsome : keys.isSome = true := by
    cases keys with
    | none => cases hold
    | some _ => rfl
  -- the disk behind the stale copy
  have hstale : (x.bakExists = true → x.staleRemoved = true) → ∃ d : KeysDisk,
      removeStale x.bakExists x.staleRemoved ⟨keys, bak, []⟩ = .ok () d ∧ d.keys = keys ∧ ∀ files ∈ d.passed, files.1 = keys := by
    intro hworks
    by_cases hbak : x.bakExists = true
    · refine ⟨⟨keys, none, [(keys, bak)]⟩, ?_, rfl, ?_⟩
      · unfold removeStale
        rw [if_pos hbak]
        unfold removeBak
        rw [if_pos (hworks hbak)]
        rfl
      · intro files hfiles
        rw [List.mem_singleton.1 hfiles]
    · refine ⟨⟨keys, bak, []⟩, ?_, rfl, fun _ hfiles => absurd hfiles List.not_mem_nil⟩
      unfold removeStale
      rw [if_neg hbak]
      rfl
  unfold replaceKeys
  by_cases hworks : x.bakExists = true → x.staleRemoved = true
  · obtain ⟨d, hremove, hkeys, hpassed⟩ := hstale hworks
    rw [bind_of_ok hremove]
    by_cases hrenamed : x.renamed = true
    · have hrename : renameAway x.renamed d = .ok true (d.become none d.keys) := by
        unfold renameAway
        rw [if_pos ⟨hrenamed, by rw [hkeys]; exact hsome⟩]
      rw [bind_of_ok hrename]
      simp only [Bool.true_eq_false, if_false]
      rw [rewriteKeys_kept_iff rfl (show f.yields d.keys oldPassword = some account by
        rw [hkeys]; exact hold)]
      · constructor
        · intro h _
          exact h
        · intro h
          exact h ⟨hwallet, hexists, hreadable, hworks, hrenamed⟩
      · intro files hfiles
        have hfirst : files.1 = keys := by
          rcases List.mem_append.1 hfiles with hmem | hlast
          · exact hpassed files hmem
          · rw [List.mem_singleton.1 hlast]
            exact hkeys
        exact inOneFile_keys oldPassword (hfirst ▸ hold) List.mem_cons_self
    · have hrename : renameAway x.renamed d = .ok false d := by
        unfold renameAway
        rw [if_neg fun hboth => hrenamed hboth.1]
      rw [bind_of_ok hrename]
      apply iff_of_true
      · exact kept_of_untouched hold (by intro h; cases h) hkeys hpassed
      · intro hreaches
        exact absurd hreaches.2.2.2.2 hrenamed
  · have hremove : removeStale x.bakExists x.staleRemoved ⟨keys, bak, []⟩ =
        .error .filesystem ⟨keys, bak, []⟩ := by
      obtain ⟨hbak, hfails⟩ := Classical.not_imp.1 hworks
      unfold removeStale
      rw [if_pos hbak]
      unfold removeBak
      rw [if_neg hfails]
    rw [bind_of_error hremove]
    apply iff_of_true
    · exact kept_of_untouched hold (by intro h; cases h) rfl fun _ hfiles =>
        absurd hfiles List.not_mem_nil
    · intro hreaches
      exact absurd hreaches.2.2.2.1 hworks

end

/-- Of every wallet, under every pattern of failures: nothing is lost exactly
where the write fails and the copy goes back, or the new file is read and the copy
removed. -/
theorem changepassword_keeps_iff {α : Type} (f : KeysFormat α) (x : Disruption)
    (mAccount account : α) (oldPassword newPassword : Blob) (iv : UInt64) (keys bak : Option Blob)
    (hold : f.yields keys oldPassword = some account) :
    KeysKept f account oldPassword newPassword
      (changepassword f x mAccount oldPassword newPassword iv ⟨keys, bak, []⟩) ↔
    KeysSafe f x mAccount account oldPassword newPassword iv := by
  unfold changepassword
  have huntouched : ∀ ex, KeysKept f account oldPassword newPassword
      (.error ex ⟨keys, bak, []⟩ : EStateM.Result KeysError KeysDisk Bool) := fun ex =>
    kept_of_untouched hold (by intro h; cases h) rfl fun _ hfiles => absurd hfiles List.not_mem_nil
  by_cases hwallet : x.walletExists = true
  · rw [if_neg (by rw [hwallet]; decide)]
    by_cases hexists : x.keysExists = true
    · rw [if_neg (by rw [hexists]; decide)]
      rcases loadKeys_cases f x.oldReadable oldPassword ⟨keys, bak, []⟩ with
        ⟨found, hreadable, -, hload⟩ | ⟨hnot, ex, hload⟩
      · rw [bind_of_ok hload]
        simp only [Bool.true_eq_false, if_false]
        exact replaceKeys_kept_iff hold hwallet hexists hreadable
      · rw [bind_of_error hload]
        apply iff_of_true (huntouched ex)
        intro hreaches
        exact absurd ⟨hreaches.2.2.1, by rw [hold]; rfl⟩ hnot
    · rw [if_pos (Bool.not_eq_true _ ▸ hexists)]
      apply iff_of_true (huntouched _)
      intro hreaches
      exact absurd hreaches.2.1 hexists
  · rw [if_pos (Bool.not_eq_true _ ▸ hwallet)]
    apply iff_of_true (huntouched _)
    intro hreaches
    exact absurd hreaches.1 hwallet

namespace Devnet

/-- Accounts are numbers, and a password stands in front of one. -/
def keysFormat : KeysFormat UInt8 where
  encrypt account password _ := some (account :: password)
  dump data := some data.accountData
  parse buf := some ⟨0, buf⟩
  decrypt data password :=
    match data.accountData with
    | account :: rest => if rest = password then some account else none
    | [] => none

/-- Everything works, and that becomes of the write. -/
def disrupted (save : SaveOutcome) : Disruption where
  walletExists := true
  keysExists := true
  oldReadable := true
  bakExists := false
  staleRemoved := true
  renamed := true
  save
  renamedBack := true
  newReadable := true
  bakRemoved := true

/-- The password 1 becomes the password 2. -/
def changed (save : SaveOutcome) : EStateM.Result KeysError KeysDisk Bool :=
  changepassword keysFormat (disrupted save) 7 [1] [2] 0 ⟨some [7, 1], none, []⟩

end Devnet

/-- A write that works, and one that fails halfway. -/
theorem changepassword_keeps_devnet :
    KeysKept Devnet.keysFormat 7 [1] [2] (Devnet.changed (.saved [[], [7]] none)) ∧
      KeysKept Devnet.keysFormat 7 [1] [2] (Devnet.changed (.failed [[], [7]] (some [7]))) :=
  ⟨(changepassword_keeps_iff Devnet.keysFormat _ 7 7 [1] [2] 0 (some [7, 1]) none rfl).2
      fun _ => by decide,
    (changepassword_keeps_iff Devnet.keysFormat _ 7 7 [1] [2] 0 (some [7, 1]) none rfl).2
      fun _ => .inl ⟨rfl, rfl⟩⟩

/-- A write that is reported as done and left the file cut short: the exception
leaves it in place. -/
theorem changepassword_loses :
    ¬ KeysKept Devnet.keysFormat 7 [1] [2] (Devnet.changed (.saved [[], [7]] (some [7]))) := by
  intro h
  have hkeys := h.unchanged (by decide)
  exact absurd hkeys (by decide)

end DarknetSpace
