import DarknetSpace.Format.AmountText
import DarknetSpace.Format.KeyValue

/-!
# Storages as JSON (`portable_storage_to_json.h`, `portable_storage_from_json.h`,
`parserse_base_utils.h`)

RPC clients and configuration files have the same trees of named values as text. The text does not
say how wide an integer was: the reader keeps what is negative as an `int64_t` and the rest as a
`uint64_t`, in arrays everything as an `int64_t`. An array of nothing leaves nothing behind, and an
array of arrays is written but not read.

The reader is one loop over the characters, which calls itself for a section inside. A text that
ends too early is no mistake: what was read until then counts.

How a `double` is written and read is up to the stream, and a parameter here
(`DoubleText`). The loop is a function of the state and one character (`turn`), and what
it does over a text is `run`, with as much fuel as there are characters: more of it
changes nothing. The last section is about single tokens, which is what round trips are
put together from.
-/

namespace DarknetSpace.PortableStorage

/-! ## Characters -/

def quoteChar : UInt8 := 34
def commaChar : UInt8 := 44
def minusChar : UInt8 := 45
def colonChar : UInt8 := 58
def leftBracket : UInt8 := 91
def backslash : UInt8 := 92
def rightBracket : UInt8 := 93
def leftBrace : UInt8 := 123
def rightBrace : UInt8 := 125

/-- `isalpha`, in the C locale. -/
def isAlpha (c : UInt8) : Bool := 65 ≤ c && c ≤ 90 || 97 ≤ c && c ≤ 122

/-- `tolower`, in the C locale. -/
def toLower (c : UInt8) : UInt8 := if 65 ≤ c && c ≤ 90 then c + 32 else c

def trueWord : Blob := [116, 114, 117, 101]
def falseWord : Blob := [102, 97, 108, 115, 101]
def nullWord : Blob := [110, 117, 108, 108]

/-- `boost::iequals`, with a word in small letters. -/
def iequals (word small : Blob) : Bool := word.map toLower == small

/-- How a `double` is streamed, and what `boost::lexical_cast` makes of a text with a point. -/
structure DoubleText where
  stream : Pod .double → Blob
  lexicalCast : Blob → Option (Pod .double)

/-! ## Writing -/

/-- The letter behind the backslash. -/
def escapeOf (c : UInt8) : Option UInt8 :=
  if c = 8 then some 98
  else if c = 12 then some 102
  else if c = 10 then some 110
  else if c = 13 then some 114
  else if c = 9 then some 116
  else if c = 11 then some 118
  else if c = quoteChar then some quoteChar
  else if c = backslash then some backslash
  else if c = 47 then some 47
  else none

/-- One character as it stands in a string. -/
def escaped (c : UInt8) : Blob :=
  match escapeOf c with
  | some letter => [backslash, letter]
  | none => [c]

/-- `transform_to_escape_sequence`. -/
def transformToEscapeSequence (src : Blob) : Blob := src.flatMap escaped

/-- A string of the text. -/
def quoted (s : Blob) : Blob := quoteChar :: (transformToEscapeSequence s ++ [quoteChar])

/-- An integer as a decimal number. -/
def integerText (v : Int) : Blob :=
  if v < 0 then minusChar :: decimalText v.natAbs else decimalText v.natAbs

/-- The word for a truth value. -/
def boolText (v : Pod .bool) : Blob := if v = 0 then falseWord else trueWord

/-- `dump_as_json` of a POD. -/
def podText (d : DoubleText) : (t : PodType) → Pod t → Blob
  | .double, v => d.stream v
  | .bool, v => boolText v
  | t, v => integerText (t.value v)

/-- `make_indent`: two spaces a level. -/
def makeIndent (indent : Nat) : Blob := List.replicate (indent * 2) 32

/-- The end of a line. -/
def endLine : Blob := [13, 10]

/-- A section's braces. -/
def braced (indent : Nat) (entries : Blob) : Blob :=
  leftBrace :: (endLine ++ (entries ++ (makeIndent indent ++ [rightBrace])))

/-- Elements with commas between them, as far as the closing bracket. -/
def joined : List Blob → Blob
  | [] => [rightBracket]
  | [x] => x ++ [rightBracket]
  | x :: y :: rest => x ++ commaChar :: joined (y :: rest)

/-- The text of an array. -/
def bracketed (elements : List Blob) : Blob := leftBracket :: joined elements

mutual

/-- `storage_entry_store_to_json_visitor`. -/
def dumpEntry (d : DoubleText) (indent : Nat) : StorageEntry → Blob
  | .pod t v => podText d t v
  | .string s => quoted s
  | .object entries => braced indent (dumpEntries d (indent + 1) entries)
  | .array a => dumpArray d indent a

/-- `array_entry_store_to_json_visitor`. -/
def dumpArray (d : DoubleText) (indent : Nat) : ArrayEntry → Blob
  | .pods t vs => bracketed (vs.map (podText d t))
  | .strings ss => bracketed (ss.map quoted)
  | .objects ss => bracketed (dumpObjects d indent ss)
  | .arrays as => bracketed (dumpArrays d indent as)

/-- The entries of a section, each on a line of its own. -/
def dumpEntries (d : DoubleText) (indent : Nat) : List (Blob × StorageEntry) → Blob
  | [] => []
  | (name, e) :: entries =>
    makeIndent indent ++ (quoted name ++ (colonChar :: 32 :: (dumpEntry d indent e ++
      ((if entries.isEmpty then [] else [commaChar]) ++
        (endLine ++ dumpEntries d indent entries)))))

/-- The sections of an array. -/
def dumpObjects (d : DoubleText) (indent : Nat) : List (List (Blob × StorageEntry)) → List Blob
  | [] => []
  | s :: ss => braced indent (dumpEntries d (indent + 1) s) :: dumpObjects d indent ss

/-- The arrays of an array. -/
def dumpArrays (d : DoubleText) (indent : Nat) : List ArrayEntry → List Blob
  | [] => []
  | a :: as => dumpArray d indent a :: dumpArrays d indent as

end

/-- `portable_storage::dump_as_json`. -/
def dumpAsJson (d : DoubleText) (root : Section) (indent : Nat) : Blob :=
  braced indent (dumpEntries d (indent + 1) root)

/-! ## Reading words -/

/-- What an escape sequence stands for; an unknown one for its letter. -/
def unescape (letter : UInt8) : UInt8 :=
  if letter = 98 then 8
  else if letter = 102 then 12
  else if letter = 110 then 10
  else if letter = 114 then 13
  else if letter = 116 then 9
  else if letter = 118 then 11
  else letter

/-- `match_string2`, behind the opening quote. -/
def matchString2 : (escapeMode : Bool) → (val : Blob) → Blob → Option (Blob × Blob)
  | _, _, [] => none
  | true, val, c :: rest => matchString2 false (val ++ [unescape c]) rest
  | false, val, c :: rest =>
    if c = quoteChar then some (val, rest)
    else if c = backslash then matchString2 true val rest
    else matchString2 false (val ++ [c]) rest

/-- What `match_number2` finds: the text, `is_float_val` and `is_signed_val`. -/
structure NumberText where
  val : Blob
  isFloatVal : Bool
  isSignedVal : Bool

/-- `match_number2`; a number cannot be the last thing in a text. -/
def matchNumber2 (n : NumberText) : Blob → Option (NumberText × Blob)
  | [] => none
  | c :: rest =>
    if isDigit c ∨ n.val = [] ∧ c = minusChar ∨ n.val ≠ [] ∧ c = pointChar ∨
        n.isFloatVal ∧ (c = 101 ∨ c = 69 ∨ c = minusChar ∨ c = 43) then
      matchNumber2 ⟨n.val ++ [c], n.isFloatVal || c == pointChar,
        n.isSignedVal || n.val.isEmpty && c == minusChar⟩ rest
    else if n.val = [] then none
    else some (n, c :: rest)

/-- `match_word2`. -/
def matchWord2 (val : Blob) : Blob → Option (Blob × Blob)
  | [] => none
  | c :: rest =>
    if isAlpha c then matchWord2 (val ++ [c]) rest
    else if val = [] then none
    else some (val, c :: rest)

/-- `boost::lexical_cast<uint64_t>` of digits. -/
def lexicalUint64 (val : Blob) : Option (Pod .uint64) :=
  if val ≠ [] ∧ val.all isDigit ∧ decimalValue val < 2 ^ 64 then
    some (BitVec.ofNat _ (decimalValue val))
  else none

/-- `boost::lexical_cast<int64_t>` of digits, with a minus or without. -/
def lexicalInt64 : Blob → Option (Pod .int64)
  | [] => none
  | c :: digits =>
    if c = minusChar then
      if digits ≠ [] ∧ digits.all isDigit ∧ decimalValue digits ≤ 2 ^ 63 then
        some (BitVec.ofInt _ (-decimalValue digits))
      else none
    else if (c :: digits).all isDigit ∧ decimalValue (c :: digits) < 2 ^ 63 then
      some (BitVec.ofNat _ (decimalValue (c :: digits)))
    else none

/-! ## The loop -/

/-- `match_state`, what the loop looks for next. -/
inductive MatchState where
  | lookupForSectionStart
  | lookupForName
  | waitingSeparator
  | wonderAfterSeparator
  | wonderAfterValue
  | wonderArray
  | arrayAfterValue
  | arrayWaitingValue
  deriving DecidableEq

/-- `array_mode`, what an array was seen to be of. -/
inductive ArrayMode where
  | undifined
  | sections
  | string
  | numbers
  | booleans
  deriving DecidableEq

/-- What one call of `run_handler` knows. `h_array` is the array under the name. -/
structure RunHandler where
  currentSection : Section
  name : Blob
  state : MatchState
  arrayMd : ArrayMode

namespace RunHandler

/-- At the start of a section. -/
def start (currentSection : Section) : RunHandler :=
  ⟨currentSection, [], .lookupForSectionStart, .undifined⟩

/-- `set_value` under the name. -/
def setEntry (h : RunHandler) (e : StorageEntry) : RunHandler :=
  { h with currentSection := setValue h.name e h.currentSection, state := .wonderAfterValue }

/-- The array under the name, after another element. -/
def setArray (h : RunHandler) (a : ArrayEntry) (md : ArrayMode) : RunHandler :=
  { h with
    currentSection := setValue h.name (.array a) h.currentSection
    state := .arrayAfterValue
    arrayMd := md }

/-- `h_array`: the array the loop is filling, found again under the last name. -/
def hArray (h : RunHandler) : Option ArrayEntry :=
  match findStorageEntry h.name h.currentSection with
  | some (.array a) => some a
  | _ => none

end RunHandler

/-- `insert_next_value`, of an array of one: the types have to be the same. -/
def insertNextValue : ArrayEntry → ArrayEntry → Option ArrayEntry
  | .pods t vs, .pods t' ws => if h : t' = t then some (.pods t (vs ++ h ▸ ws)) else none
  | .strings ss, .strings ts => some (.strings (ss ++ ts))
  | .objects ss, .objects ts => some (.objects (ss ++ ts))
  | _, _ => none

/-- A named number. -/
def numberEntry (d : DoubleText) (n : NumberText) : Option StorageEntry :=
  if n.isFloatVal then (d.lexicalCast n.val).map fun v => .pod .double v
  else if n.isSignedVal then (lexicalInt64 n.val).map fun v => .pod .int64 v
  else (lexicalUint64 n.val).map fun v => .pod .uint64 v

/-- A number in an array. -/
def numberElement (d : DoubleText) (n : NumberText) : Option ArrayEntry :=
  if n.isFloatVal then (d.lexicalCast n.val).map fun v => .pods .double [v]
  else (lexicalInt64 n.val).map fun v => .pods .int64 [v]

/-- A string, number or boolean in an array of that mode, at its first character. -/
def readElement (d : DoubleText) (md : ArrayMode) (c : UInt8) (rest : Blob) :
    Option (ArrayEntry × Blob) :=
  match md with
  | .string => (matchString2 false [] rest).map fun (val, rest) => (.strings [val], rest)
  | .numbers => do
    let (n, rest) ← matchNumber2 ⟨[], false, false⟩ (c :: rest)
    let element ← numberElement d n
    some (element, rest)
  | .booleans => do
    let (word, rest) ← matchWord2 [] (c :: rest)
    if iequals word trueWord then some (.pods .bool [1], rest)
    else if iequals word falseWord then some (.pods .bool [0], rest)
    else none
  | _ => none

/-- The mode of an array whose first element starts with the character, sections apart. -/
def modeOf (c : UInt8) : Option ArrayMode :=
  if c = quoteChar then some .string
  else if isDigit c ∨ c = minusChar then some .numbers
  else if isAlpha c then some .booleans
  else none

/-- What the loop does at a character. -/
inductive Turn where
  | throws
  /-- at the section's closing brace -/
  | returns
  | goesOn (h : RunHandler) (rest : Blob)
  /-- another call reads the section that starts here; `put` is the handler with it -/
  | opens (child : Section) (put : Section → RunHandler)

/-- `CHECK_ISSPACE`. -/
def checkIsspace (h : RunHandler) (c : UInt8) (rest : Blob) : Turn :=
  if isSpace c then .goesOn h rest else .throws

namespace RunHandler

/-- A named value that starts with a letter. -/
def namedWord (h : RunHandler) (c : UInt8) (rest : Blob) : Turn :=
  match matchWord2 [] (c :: rest) with
  | none => .throws
  | some (word, rest) =>
    if iequals word nullWord then .goesOn { h with state := .wonderAfterValue } rest
    else if iequals word trueWord then .goesOn (h.setEntry (.pod .bool 1)) rest
    else if iequals word falseWord then .goesOn (h.setEntry (.pod .bool 0)) rest
    else .throws

/-- `match_state_wonder_after_separator`. -/
def namedValue (d : DoubleText) (h : RunHandler) (c : UInt8) (rest : Blob) : Turn :=
  if c = quoteChar then
    match matchString2 false [] rest with
    | none => .throws
    | some (val, rest) => .goesOn (h.setEntry (.string val)) rest
  else if isDigit c ∨ c = minusChar then
    match matchNumber2 ⟨[], false, false⟩ (c :: rest) with
    | none => .throws
    | some (n, rest) =>
      match numberEntry d n with
      | none => .throws
      | some e => .goesOn (h.setEntry e) rest
  else if isAlpha c then h.namedWord c rest
  else if c = leftBrace then
    .opens (childSection (findStorageEntry h.name h.currentSection)) fun s => h.setEntry (.object s)
  else if c = leftBracket then .goesOn { h with state := .wonderArray } rest
  else checkIsspace h c rest

/-- `match_state_wonder_array`. -/
def firstElement (d : DoubleText) (h : RunHandler) (c : UInt8) (rest : Blob) : Turn :=
  if c = leftBracket then .throws
  else if c = leftBrace then .opens [] fun s => h.setArray (.objects [s]) .sections
  else if c = rightBracket then
    .goesOn { h with state := .wonderAfterValue, arrayMd := .undifined } rest
  else
    match modeOf c with
    | none => checkIsspace h c rest
    | some md =>
      match readElement d md c rest with
      | none => .throws
      | some (a, rest) => .goesOn (h.setArray a md) rest

/-- `match_state_array_waiting_value`. -/
def nextElement (d : DoubleText) (h : RunHandler) (c : UInt8) (rest : Blob) : Turn :=
  match h.arrayMd with
  | .undifined => .throws
  | .sections =>
    if c = leftBrace then
      match h.hArray with
      | some (.objects ss) => .opens [] fun s => h.setArray (.objects (ss ++ [s])) .sections
      | _ => .throws
    else checkIsspace h c rest
  | md =>
    if modeOf c = some md then
      match readElement d md c rest with
      | none => .throws
      | some (a, rest) =>
        match h.hArray.bind (insertNextValue · a) with
        | none => .throws
        | some a => .goesOn (h.setArray a md) rest
    else checkIsspace h c rest

/-- One turn of the loop, by what it looks for. -/
def turn (d : DoubleText) (h : RunHandler) (c : UInt8) (rest : Blob) : Turn :=
  match h.state with
  | .lookupForSectionStart =>
    if c = leftBrace then .goesOn { h with state := .lookupForName } rest else checkIsspace h c rest
  | .lookupForName =>
    if c = quoteChar then
      match matchString2 false [] rest with
      | none => .throws
      | some (name, rest) => .goesOn { h with name := name, state := .waitingSeparator } rest
    else if c = rightBrace then .returns
    else checkIsspace h c rest
  | .waitingSeparator =>
    if c = colonChar then .goesOn { h with state := .wonderAfterSeparator } rest
    else checkIsspace h c rest
  | .wonderAfterSeparator => h.namedValue d c rest
  | .wonderAfterValue =>
    if c = commaChar then .goesOn { h with state := .lookupForName } rest
    else if c = rightBrace then .returns
    else checkIsspace h c rest
  | .wonderArray => h.firstElement d c rest
  | .arrayAfterValue =>
    if c = commaChar then .goesOn { h with state := .arrayWaitingValue } rest
    else if c = rightBracket then
      .goesOn { h with state := .wonderAfterValue, arrayMd := .undifined } rest
    else checkIsspace h c rest
  | .arrayWaitingValue => h.nextElement d c rest

/-- `run_handler`: the section, and the text behind its brace; `none` where the text ended before,
and the caller reads on behind the section's first character. -/
def run (d : DoubleText) : (turns : Nat) → RunHandler → Blob → Option (Section × Option Blob)
  | _, h, [] => some (h.currentSection, none)
  | 0, _, _ => none
  | turns + 1, h, c :: rest =>
    match h.turn d c rest with
    | .throws => none
    | .returns => some (h.currentSection, some rest)
    | .goesOn h rest => run d turns h rest
    | .opens child put => do
      let (s, behind) ← run d turns (start child) (c :: rest)
      run d turns (put s) (behind.getD rest)

/-- The turns that a text takes at most: a section inside is looked at twice. -/
def turns (h : RunHandler) (text : Blob) : Nat :=
  if h.state = .lookupForSectionStart then 2 * text.length else 2 * text.length + 1

end RunHandler

/-- `load_from_json`. -/
def loadFromJson (d : DoubleText) (buffJson : Blob) : Option Section :=
  (RunHandler.run d (RunHandler.turns (.start []) buffJson) (.start []) buffJson).map Prod.fst

/-! ## The reader comes to an end -/

/-- A string takes at least its closing quote. -/
theorem matchString2_shorter {mode : Bool} {val text s rest : Blob}
    (h : matchString2 mode val text = some (s, rest)) : rest.length < text.length := by
  induction text generalizing mode val with
  | nil => cases mode <;> cases h
  | cons c text ih =>
    rw [List.length_cons]
    cases mode with
    | true => exact Nat.lt_succ_of_lt (ih h)
    | false =>
      unfold matchString2 at h
      by_cases hquote : c = quoteChar
      · rw [if_pos hquote] at h
        cases h
        exact Nat.lt_succ_self _
      · rw [if_neg hquote] at h
        by_cases hback : c = backslash
        · rw [if_pos hback] at h
          exact Nat.lt_succ_of_lt (ih h)
        · rw [if_neg hback] at h
          exact Nat.lt_succ_of_lt (ih h)

/-- A number takes no character back, and one at least if it had none yet. -/
theorem matchNumber2_shorter {n m : NumberText} {text rest : Blob}
    (h : matchNumber2 n text = some (m, rest)) :
    rest.length ≤ text.length ∧ (n.val = [] → rest.length < text.length) := by
  induction text generalizing n with
  | nil => cases h
  | cons c text ih =>
    unfold matchNumber2 at h
    rw [List.length_cons]
    split at h
    · have := (ih h).1
      exact ⟨by omega, fun _ => by omega⟩
    · split at h
      · cases h
      · rename_i hval
        cases h
        exact ⟨Nat.le_refl _, fun hnil => absurd hnil hval⟩

/-- A word takes no character back, and one at least if it had none yet. -/
theorem matchWord2_shorter {val text word rest : Blob}
    (h : matchWord2 val text = some (word, rest)) :
    rest.length ≤ text.length ∧ (val = [] → rest.length < text.length) := by
  induction text generalizing val with
  | nil => cases h
  | cons c text ih =>
    unfold matchWord2 at h
    rw [List.length_cons]
    split at h
    · have := (ih h).1
      exact ⟨by omega, fun _ => by omega⟩
    · split at h
      · cases h
      · rename_i hval
        cases h
        exact ⟨Nat.le_refl _, fun hnil => absurd hnil hval⟩

/-- An element of an array takes characters. -/
theorem readElement_shorter {d : DoubleText} {md : ArrayMode} {c : UInt8} {rest behind : Blob}
    {a : ArrayEntry} (h : readElement d md c rest = some (a, behind)) :
    behind.length ≤ rest.length := by
  unfold readElement at h
  cases md with
  | undifined => cases h
  | sections => cases h
  | string =>
    obtain ⟨⟨val, behind'⟩, hmatch, heq⟩ := Option.map_eq_some_iff.1 h
    cases heq
    exact Nat.le_of_lt (matchString2_shorter hmatch)
  | numbers =>
    obtain ⟨⟨n, behind'⟩, hmatch, h⟩ := Option.bind_eq_some_iff.1 h
    obtain ⟨element, -, h⟩ := Option.bind_eq_some_iff.1 h
    cases h
    exact Nat.le_of_lt_succ ((matchNumber2_shorter hmatch).2 rfl)
  | booleans =>
    obtain ⟨⟨word, behind'⟩, hmatch, h⟩ := Option.bind_eq_some_iff.1 h
    have hlt := Nat.le_of_lt_succ ((matchWord2_shorter hmatch).2 rfl)
    simp only at h
    split at h
    · cases h
      exact hlt
    · split at h
      · cases h
        exact hlt
      · cases h

namespace RunHandler

variable {d : DoubleText} {h h' : RunHandler} {c : UInt8} {rest rest' : Blob}

/-- A turn gets ahead in the text, does not go back to the start of a section, and opens none
there. -/
def Advances (h : RunHandler) (rest : Blob) : Turn → Prop
  | .throws | .returns => True
  | .goesOn h' rest' =>
    rest'.length ≤ rest.length ∧
      (h'.state = .lookupForSectionStart → h.state = .lookupForSectionStart)
  | .opens _ put =>
    h.state ≠ .lookupForSectionStart ∧ ∀ s, (put s).state ≠ .lookupForSectionStart

theorem checkIsspace_advances (h : RunHandler) (c : UInt8) (rest : Blob) :
    Advances h rest (checkIsspace h c rest) := by
  unfold checkIsspace
  split
  · exact ⟨Nat.le_refl _, id⟩
  · trivial

/-- A `true`, `false` or `null` under a name. -/
theorem namedWord_advances (h : RunHandler) (c : UInt8) (rest : Blob) :
    Advances h rest (h.namedWord c rest) := by
  unfold namedWord
  split
  · trivial
  · rename_i word behind hmatch
    have hlt := Nat.le_of_lt_succ ((matchWord2_shorter hmatch).2 rfl)
    split
    · exact ⟨hlt, nofun⟩
    · split
      · exact ⟨hlt, nofun⟩
      · split
        · exact ⟨hlt, nofun⟩
        · trivial

/-- A value under a name. -/
theorem namedValue_advances (d : DoubleText) (hstate : h.state ≠ .lookupForSectionStart) (c : UInt8)
    (rest : Blob) : Advances h rest (h.namedValue d c rest) := by
  unfold namedValue
  split
  · split
    · trivial
    · rename_i hmatch
      exact ⟨Nat.le_of_lt (matchString2_shorter hmatch), nofun⟩
  · split
    · split
      · trivial
      · rename_i hmatch
        have hlt := Nat.le_of_lt_succ ((matchNumber2_shorter hmatch).2 rfl)
        split
        · trivial
        · exact ⟨hlt, nofun⟩
    · split
      · exact h.namedWord_advances c rest
      · split
        · exact ⟨hstate, nofun⟩
        · split
          · exact ⟨Nat.le_refl _, nofun⟩
          · exact checkIsspace_advances h c rest

/-- The first element of an array. -/
theorem firstElement_advances (d : DoubleText) (hstate : h.state ≠ .lookupForSectionStart)
    (c : UInt8) (rest : Blob) : Advances h rest (h.firstElement d c rest) := by
  unfold firstElement
  split
  · trivial
  · split
    · exact ⟨hstate, nofun⟩
    · split
      · exact ⟨Nat.le_refl _, nofun⟩
      · split
        · exact checkIsspace_advances h c rest
        · split
          · trivial
          · rename_i hread
            exact ⟨readElement_shorter hread, nofun⟩

/-- A further element of an array. -/
theorem nextElement_advances (d : DoubleText) (hstate : h.state ≠ .lookupForSectionStart)
    (c : UInt8) (rest : Blob) : Advances h rest (h.nextElement d c rest) := by
  unfold nextElement
  split
  · trivial
  · split
    · split
      · exact ⟨hstate, nofun⟩
      · trivial
    · exact checkIsspace_advances h c rest
  · split
    · split
      · trivial
      · rename_i hread
        split
        · trivial
        · exact ⟨readElement_shorter hread, nofun⟩
    · exact checkIsspace_advances h c rest

/-- Every turn takes a character, ends the loop or opens a section: one case for each state. -/
theorem turn_advances (d : DoubleText) (h : RunHandler) (c : UInt8) (rest : Blob) :
    Advances h rest (h.turn d c rest) := by
  have hspace := checkIsspace_advances h c rest
  unfold turn
  cases hstate : h.state with
  | lookupForSectionStart =>
    simp only
    split
    · exact ⟨Nat.le_refl _, nofun⟩
    · exact hspace
  | lookupForName =>
    simp only
    split
    · split
      · trivial
      · rename_i hmatch
        exact ⟨Nat.le_of_lt (matchString2_shorter hmatch), nofun⟩
    · split
      · trivial
      · exact hspace
  | waitingSeparator =>
    simp only
    split
    · exact ⟨Nat.le_refl _, nofun⟩
    · exact hspace
  | wonderAfterSeparator => exact namedValue_advances d (by rw [hstate]; nofun) c rest
  | wonderAfterValue =>
    simp only
    split
    · exact ⟨Nat.le_refl _, nofun⟩
    · split
      · trivial
      · exact hspace
  | wonderArray => exact firstElement_advances d (by rw [hstate]; nofun) c rest
  | arrayAfterValue =>
    simp only
    split
    · exact ⟨Nat.le_refl _, nofun⟩
    · split
      · exact ⟨Nat.le_refl _, nofun⟩
      · exact hspace
  | arrayWaitingValue => exact nextElement_advances d (by rw [hstate]; nofun) c rest

/-- A turn taken leaves fewer turns. -/
theorem turns_goesOn (hturn : h.turn d c rest = .goesOn h' rest') {n : Nat}
    (hn : turns h (c :: rest) ≤ n + 1) : turns h' rest' ≤ n := by
  have hahead := turn_advances d h c rest
  rw [hturn] at hahead
  obtain ⟨hlen, hstart⟩ := hahead
  unfold turns at hn ⊢
  rw [List.length_cons] at hn
  by_cases hs : h'.state = .lookupForSectionStart
  · rw [if_pos hs]
    rw [if_pos (hstart hs)] at hn
    omega
  · rw [if_neg hs]
    split at hn <;> omega

/-- A section opened leaves fewer turns, as the state is not asked again. -/
theorem turns_opens {child : Section} {put : Section → RunHandler}
    (hturn : h.turn d c rest = .opens child put) {n : Nat} (hn : turns h (c :: rest) ≤ n + 1) :
    turns (start child) (c :: rest) ≤ n ∧
      ∀ s behind, behind.length ≤ rest.length → turns (put s) behind ≤ n := by
  have hahead := turn_advances d h c rest
  rw [hturn] at hahead
  obtain ⟨hstate, hput⟩ := hahead
  unfold turns at hn
  rw [if_neg hstate, List.length_cons] at hn
  refine ⟨?_, fun s behind hlen => ?_⟩
  · show 2 * (c :: rest).length ≤ n
    rw [List.length_cons]
    omega
  · unfold turns
    rw [if_neg (hput s)]
    omega

/-- A section read within the text leaves less text. -/
theorem run_behind {n : Nat} {text behind : Blob} {s : Section}
    (hrun : run d n h text = some (s, some behind)) : behind.length < text.length := by
  induction n generalizing h text s behind with
  | zero => cases text <;> cases hrun
  | succ n ih =>
    cases text with
    | nil => cases hrun
    | cons c rest =>
      have hahead := turn_advances d h c rest
      unfold run at hrun
      rw [List.length_cons]
      cases hturn : h.turn d c rest with
      | throws =>
        rw [hturn] at hrun
        cases hrun
      | returns =>
        rw [hturn] at hrun
        cases hrun
        exact Nat.lt_succ_self _
      | goesOn h' rest' =>
        rw [hturn] at hrun hahead
        exact Nat.lt_succ_of_lt (Nat.lt_of_lt_of_le (ih hrun) hahead.1)
      | opens child put =>
        rw [hturn] at hrun
        obtain ⟨⟨s', behind'⟩, hchild, hrun⟩ := Option.bind_eq_some_iff.1 hrun
        have hlt := ih hrun
        cases behind' with
        | none => exact Nat.lt_succ_of_lt hlt
        | some behind' =>
          have := ih hchild
          rw [List.length_cons] at this
          have hlt : behind.length < behind'.length := hlt
          omega

end RunHandler

/-! ## What is read of a text -/

/-- With turns enough for the text the call gives `r`. -/
def Reads (d : DoubleText) (h : RunHandler) (text : Blob) (r : Option (Section × Option Blob)) :
    Prop :=
  ∀ n, RunHandler.turns h text ≤ n → RunHandler.run d n h text = r

namespace Reads

variable {d : DoubleText} {h h' : RunHandler} {c : UInt8} {rest rest' : Blob}
  {r : Option (Section × Option Blob)}

/-- One turn of the loop. -/
theorem step (hcons : ∀ n, RunHandler.turns h (c :: rest) ≤ n + 1 →
    RunHandler.run d (n + 1) h (c :: rest) = r) : Reads d h (c :: rest) r := by
  intro n hn
  cases n with
  | zero =>
    unfold RunHandler.turns at hn
    rw [List.length_cons] at hn
    split at hn <;> omega
  | succ n => exact hcons n hn

theorem throws (hturn : h.turn d c rest = .throws) : Reads d h (c :: rest) none := by
  refine step fun n _ => ?_
  unfold RunHandler.run
  rw [hturn]

theorem returns (hturn : h.turn d c rest = .returns) :
    Reads d h (c :: rest) (some (h.currentSection, some rest)) := by
  refine step fun n _ => ?_
  unfold RunHandler.run
  rw [hturn]

theorem goesOn (hturn : h.turn d c rest = .goesOn h' rest') (hr : Reads d h' rest' r) :
    Reads d h (c :: rest) r := by
  refine step fun n hn => ?_
  unfold RunHandler.run
  rw [hturn]
  exact hr n (RunHandler.turns_goesOn hturn hn)

/-- A turn that reads a section and goes on behind it. -/
theorem opens {child s : Section} {put : Section → RunHandler} {behind : Blob}
    (hturn : h.turn d c rest = .opens child put)
    (hchild : Reads d (.start child) (c :: rest) (some (s, some behind)))
    (hr : Reads d (put s) behind r) : Reads d h (c :: rest) r := by
  refine step fun n hn => ?_
  obtain ⟨hn', hput⟩ := RunHandler.turns_opens hturn hn
  have hrun := hchild n hn'
  unfold RunHandler.run
  rw [hturn]
  simp only
  rw [hrun]
  exact hr n (hput s behind (Nat.le_of_lt_succ (RunHandler.run_behind hrun)))

/-- A turn that reads a section which cannot be read. -/
theorem opens_throws {child : Section} {put : Section → RunHandler}
    (hturn : h.turn d c rest = .opens child put)
    (hchild : Reads d (.start child) (c :: rest) none) :
    Reads d h (c :: rest) none := by
  refine step fun n hn => ?_
  unfold RunHandler.run
  rw [hturn]
  simp only
  rw [hchild n (RunHandler.turns_opens hturn hn).1]
  rfl

end Reads

theorem loadFromJson_of_reads {d : DoubleText} {text : Blob} {r : Option (Section × Option Blob)}
    (hr : Reads d (.start []) text r) : loadFromJson d text = r.map Prod.fst := by
  unfold loadFromJson
  rw [hr _ (Nat.le_refl _)]

/-! ## Strings, numbers and words come back -/

theorem unescape_of_escape {c letter : UInt8} (h : escapeOf c = some letter) :
    unescape letter = c := by
  unfold escapeOf at h
  split_ifs at h <;> · cases h; subst_vars; rfl

theorem ne_of_escapeOf_none {c : UInt8} (h : escapeOf c = none) :
    c ≠ quoteChar ∧ c ≠ backslash := by
  unfold escapeOf at h
  split_ifs at h with _ _ _ _ _ _ hquote hback
  exact ⟨hquote, hback⟩

/-- A quoted string is read back: by induction on it. -/
theorem matchString2_escaped (s val rest : Blob) :
    matchString2 false val (transformToEscapeSequence s ++ quoteChar :: rest) =
      some (val ++ s, rest) := by
  induction s generalizing val with
  | nil =>
    show matchString2 false val (quoteChar :: rest) = _
    rw [matchString2, if_pos rfl, List.append_nil]
  | cons c s ih =>
    have happend : val ++ c :: s = (val ++ [c]) ++ s := by
      rw [List.append_assoc]
      rfl
    have htext : transformToEscapeSequence (c :: s) =
        escaped c ++ transformToEscapeSequence s := rfl
    rw [htext, List.append_assoc, happend]
    unfold escaped
    cases hescape : escapeOf c with
    | some letter =>
      show matchString2 false val (backslash :: letter :: _) = _
      rw [matchString2, if_neg (by decide), if_pos rfl, matchString2, unescape_of_escape hescape]
      exact ih (val ++ [c])
    | none =>
      obtain ⟨hquote, hback⟩ := ne_of_escapeOf_none hescape
      show matchString2 false val (c :: _) = _
      rw [matchString2, if_neg hquote, if_neg hback]
      exact ih (val ++ [c])

/-- What stands behind a value: a comma, the end of the line or the closing bracket. -/
def Ends (rest : Blob) : Prop :=
  ∃ c tail, rest = c :: tail ∧ (c = commaChar ∨ c = 13 ∨ c = rightBracket)

/-- Digits are read until they end: by induction on them. -/
theorem matchNumber2_digits {digits rest : Blob} (hdigits : ∀ c ∈ digits, isDigit c = true)
    (hends : Ends rest) {val : Blob} {isSigned : Bool} (hval : val ++ digits ≠ []) :
    matchNumber2 ⟨val, false, isSigned⟩ (digits ++ rest) =
      some (⟨val ++ digits, false, isSigned⟩, rest) := by
  induction digits generalizing val with
  | nil =>
    obtain ⟨c, tail, rfl, hc⟩ := hends
    rw [List.append_nil] at hval ⊢
    have hno : ¬ (isDigit c = true ∨ val = [] ∧ c = minusChar ∨ val ≠ [] ∧ c = pointChar ∨
        false = true ∧ (c = 101 ∨ c = 69 ∨ c = minusChar ∨ c = 43)) := by
      rintro (hdigit | ⟨hnil, -⟩ | ⟨-, hpoint⟩ | ⟨hfalse, -⟩)
      · rcases hc with rfl | rfl | rfl <;> exact absurd hdigit (by decide)
      · exact hval hnil
      · rcases hc with rfl | rfl | rfl <;> exact absurd hpoint (by decide)
      · exact Bool.false_ne_true hfalse
    show matchNumber2 _ (c :: tail) = _
    rw [matchNumber2, if_neg hno, if_neg hval]
  | cons c digits ih =>
    obtain ⟨hc, hdigits⟩ := List.forall_mem_cons.1 hdigits
    have hpoint : (c == pointChar) = false := by
      refine beq_false_of_ne fun heq => ?_
      rw [heq] at hc
      exact absurd hc (by decide)
    have hminus : (c == minusChar) = false := by
      refine beq_false_of_ne fun heq => ?_
      rw [heq] at hc
      exact absurd hc (by decide)
    have happend : val ++ c :: digits = (val ++ [c]) ++ digits := by
      rw [List.append_assoc]
      rfl
    show matchNumber2 _ (c :: (digits ++ rest)) = _
    rw [matchNumber2, if_pos (.inl hc)]
    simp only [hpoint, hminus, Bool.and_false, Bool.or_false]
    rw [ih hdigits (by rw [← happend]; exact hval), happend]

/-- The text of an integer is read to its end, with its sign. -/
theorem matchNumber2_integerText (v : Int) {rest : Blob} (hends : Ends rest) :
    matchNumber2 ⟨[], false, false⟩ (integerText v ++ rest) =
      some (⟨integerText v, false, decide (v < 0)⟩, rest) := by
  obtain ⟨hdigits, hne, -⟩ := decimalText_spec v.natAbs
  unfold integerText
  by_cases hv : v < 0
  · rw [if_pos hv, decide_eq_true hv]
    show matchNumber2 _ (minusChar :: (decimalText v.natAbs ++ rest)) = _
    rw [matchNumber2, if_pos (.inr (.inl ⟨rfl, rfl⟩))]
    exact matchNumber2_digits hdigits hends (by simp)
  · rw [if_neg hv, decide_eq_false hv]
    exact matchNumber2_digits hdigits hends hne

/-- A non-negative integer below 2^64 is read as its value. -/
theorem lexicalUint64_integerText {v : Int} (hpos : 0 ≤ v) (hv : v < 2 ^ 64) :
    lexicalUint64 (integerText v) = some (BitVec.ofInt _ v) := by
  obtain ⟨hdigits, hne, hvalue⟩ := decimalText_spec v.natAbs
  have htext : integerText v = decimalText v.natAbs := if_neg (by omega)
  have hlt : decimalValue (decimalText v.natAbs) < 2 ^ 64 := by omega
  obtain ⟨k, rfl⟩ := Int.eq_ofNat_of_zero_le hpos
  rw [htext, lexicalUint64, if_pos ⟨hne, List.all_eq_true.2 hdigits, hlt⟩, hvalue,
    Int.natAbs_natCast, BitVec.ofInt_natCast]

/-- An integer is read as its value below 2^63, and fails from there on. -/
theorem lexicalInt64_integerText {v : Int} (hlow : -2 ^ 63 ≤ v) :
    lexicalInt64 (integerText v) = if v < 2 ^ 63 then some (BitVec.ofInt _ v) else none := by
  obtain ⟨hdigits, hne, hvalue⟩ := decimalText_spec v.natAbs
  by_cases hneg : v < 0
  · have htext : integerText v = minusChar :: decimalText v.natAbs := if_pos hneg
    have hle : decimalValue (decimalText v.natAbs) ≤ 2 ^ 63 := by omega
    have hback : (-(decimalValue (decimalText v.natAbs) : Int)) = v := by omega
    rw [htext, if_pos (show v < 2 ^ 63 by omega), lexicalInt64, if_pos rfl,
      if_pos ⟨hne, List.all_eq_true.2 hdigits, hle⟩, hback]
  · have htext : integerText v = decimalText v.natAbs := if_neg hneg
    rw [htext]
    cases hcons : decimalText v.natAbs with
    | nil => exact absurd hcons hne
    | cons c digits =>
      rw [hcons] at hdigits hvalue
      have hc : c ≠ minusChar := by
        intro heq
        have := hdigits c (List.mem_cons_self ..)
        rw [heq] at this
        exact absurd this (by decide)
      rw [lexicalInt64, if_neg hc]
      by_cases hv : v < 2 ^ 63
      · have hlt : decimalValue (c :: digits) < 2 ^ 63 := by omega
        obtain ⟨k, rfl⟩ := Int.eq_ofNat_of_zero_le (Int.not_lt.1 hneg)
        rw [if_pos hv, if_pos ⟨List.all_eq_true.2 hdigits, hlt⟩, hvalue, Int.natAbs_natCast,
          BitVec.ofInt_natCast]
      · rw [if_neg hv, if_neg fun h => absurd h.2 (by omega)]

/-- A word is read to its end. -/
theorem matchWord2_word {word rest : Blob} (hword : ∀ c ∈ word, isAlpha c = true)
    (hends : Ends rest) {val : Blob} (hval : val ++ word ≠ []) :
    matchWord2 val (word ++ rest) = some (val ++ word, rest) := by
  induction word generalizing val with
  | nil =>
    obtain ⟨c, tail, rfl, hc⟩ := hends
    rw [List.append_nil] at hval ⊢
    have hno : ¬ isAlpha c = true := by
      rcases hc with rfl | rfl | rfl <;> decide
    show matchWord2 _ (c :: tail) = _
    rw [matchWord2, if_neg hno, if_neg hval]
  | cons c word ih =>
    obtain ⟨hc, hword⟩ := List.forall_mem_cons.1 hword
    have happend : val ++ c :: word = (val ++ [c]) ++ word := by
      rw [List.append_assoc]
      rfl
    show matchWord2 _ (c :: (word ++ rest)) = _
    rw [matchWord2, if_pos hc, happend]
    exact ih hword (by rw [← happend]; exact hval)

/-- The word `true`. -/
theorem matchWord2_true {rest : Blob} (hends : Ends rest) :
    matchWord2 [] (trueWord ++ rest) = some (trueWord, rest) :=
  matchWord2_word (List.all_eq_true.1 rfl) hends (List.cons_ne_nil _ _)

/-- The word `false`. -/
theorem matchWord2_false {rest : Blob} (hends : Ends rest) :
    matchWord2 [] (falseWord ++ rest) = some (falseWord, rest) :=
  matchWord2_word (List.all_eq_true.1 rfl) hends (List.cons_ne_nil _ _)

end DarknetSpace.PortableStorage
