import Shellflow.Service.Findings

/-! The scan of a line for the shapes of secrets. -/
namespace Shellflow.Audit
open ServiceCheck (CaseMapping findBytes dropBytes lenBytes)

/-- What the scan asks the character database. -/
structure CharData extends CaseMapping where
  isAlphanumeric : Char → Bool
  alphanumeric_ascii : ∀ c : Char, c.toNat < 128 → isAlphanumeric c = c.isAlphanum

/-- The line and what it shows, never the value. -/
structure Finding where
  line : Nat
  message : String
deriving DecidableEq, Repr

section Placeholders

def isPlaceholderName (name : Text) : Bool :=
  match name with
  | [] => false
  | first :: rest =>
    (first.isAlpha || first == '_') && rest.all fun c => c.isAlphanum || c == '_'

/-- Every reference takes one character at least, so as many rounds as characters suffice. -/
def placeholdersFrom : Nat → Text → Bool
  | _, [] => true
  | 0, _ :: _ => false
  | n + 1, rest =>
    match "$\x7b".toList.isPrefixOf? rest with
    | some after =>
      match Str.splitOnceChars ['\x7d'] after with
      | none => false
      | some (name, rest) => isPlaceholderName name && placeholdersFrom n rest
    | none =>
      match ['$'].isPrefixOf? rest with
      | none => false
      | some after =>
        let name := after.takeWhile fun c => c.isAlphanum || c == '_'
        isPlaceholderName name && placeholdersFrom n (after.drop name.length)

def isPlaceholderOnly (value : String) : Bool :=
  value ≠ "" && placeholdersFrom value.length value.toList

end Placeholders

section Values
variable (m : CharData)

def isPathLike (value : String) : Bool :=
  (["/", "./", "../", "~/"].any fun start => Str.startsWith value start) ||
    match Str.rsplitOnceChar value '/' with
    | none => false
    | some (_, name) => name ≠ "" && Str.contains name "." && !Str.startsWith name "."

def isRedactionMarker (value : String) : Bool := Str.startsWith value "<" && Str.endsWith value ">"

/-- Shapes that are conventionally placeholders. -/
def placeholderValues : List String :=
  ["dummy", "changeme", "example", "test", "none", "false", "true"]

def placeholderWords : List String := ["placeholder", "redacted", "todo", "fixme"]

def liveValue (word value : String) : Option String :=
  let value := Str.trim value
  if value = "" then none
  else if lenBytes value < 6 then none
  else
    let vl := m.lower value
    if placeholderValues.contains vl || Str.startsWith value "xxxx" || Str.contains value "..." ||
        Str.contains value "***" || (Str.parseI64 value).isSome then none
    else if placeholderWords.any (Str.contains vl) then none
    else if isPlaceholderOnly value then none
    else if isPathLike value || isRedactionMarker value then none
    else if Str.contains value "://" then none
    else some s!"live-looking `{word}` assignment"

def secretKeyWords : List String :=
  ["password", "passwd", "requirepass", "secret", "token", "apikey", "privatekey", "credential",
    "pass", "dbpass", "userpass", "adminpass"]

def secretKeySubstrings : List String :=
  ["password", "passwd", "secret", "token", "apikey", "privatekey"]

/-- The secret word that a key carries. -/
def secretWord (key : Text) : Option String :=
  let norm := m.lower (String.ofList (key.filter Char.isAlphanum))
  if norm = "" then none
  else (secretKeyWords.find? fun w => norm == w).or
    (secretKeySubstrings.find? fun w => Str.contains norm w)

end Values

section Spans

def isQuote (c : Char) : Bool := c == '"' || c == '\''

/-- The byte ranges of the quoted strings; `skip` characters belong to the last one. A quote that
never closes is an apostrophe. -/
def quotedSpansFrom : Nat → Nat → Text → List (Nat × Nat)
  | _, _, [] => []
  | skip + 1, i, c :: s => quotedSpansFrom skip (i + c.utf8Size) s
  | 0, i, c :: s =>
    if isQuote c then
      match Str.splitOnceChars [c] s with
      | some (inner, _) =>
        (i, i + 1 + byteLen inner + 1) :: quotedSpansFrom (inner.length + 1) (i + 1) s
      | none => quotedSpansFrom 0 (i + 1) s
    else quotedSpansFrom 0 (i + c.utf8Size) s

def quotedSpans (line : String) : List (Nat × Nat) := quotedSpansFrom 0 0 line.toList

def inQuoted (spans : List (Nat × Nat)) (pos : Nat) : Bool :=
  spans.any fun span => span.1 ≤ pos && pos < span.2

/-- The words of a text, each with the byte it starts at. -/
def wordIndicesFrom : Nat → Nat → Text → List (Nat × Text)
  | _, _, [] => []
  | skip + 1, i, c :: s => wordIndicesFrom skip (i + c.utf8Size) s
  | 0, i, c :: s =>
    if Str.isWhitespace c then wordIndicesFrom 0 (i + c.utf8Size) s
    else
      let word := (c :: s).takeWhile fun d => !Str.isWhitespace d
      (i, word) :: wordIndicesFrom (word.length - 1) (i + c.utf8Size) s

def wordIndices (line : String) : List (Nat × Text) := wordIndicesFrom 0 0 line.toList

end Spans

section Scan
variable (m : CharData)

/-- The run of key characters in front of an equals sign. -/
def keyTokenBefore (before : Text) : Text :=
  (Str.trimEndChars before).rtakeWhile fun c => c.isAlphanum || c == '_' || c == '-' || c == '.'

/-- Where a bare value ends. -/
def endsValue (c : Char) : Bool :=
  Str.isWhitespace c || c == ',' || c == ';' || c == ')' || c == ']' || c == '|' ||
    c == Char.ofNat 96

def valueAfterEq (after : Text) : Text :=
  match Str.trimStartChars after with
  | [] => []
  | c :: inner =>
    if isQuote c then inner.takeWhile fun d => d != c
    else if c == '<' then
      match Str.splitOnceChars ['>'] (c :: inner) with
      | some (marker, _) => marker ++ ['>']
      | none => c :: inner
    else (c :: inner).takeWhile fun d => !endsValue d

/-- The secret that a flag and the word behind it show. -/
def flagAndWord (quoted : List (Nat × Nat)) (previous word : Nat × Text) :
    Option (String × String) :=
  if previous.2.head? == some '-' && !previous.2.contains '=' && !inQuoted quoted previous.1 then
    match secretWord m (previous.2.dropWhile fun c => c == '-') with
    | none => none
    | some key =>
      if word.2.head? != some '-' && !inQuoted quoted word.1 then
        some (key, String.ofList ((word.2.dropWhile isQuote).rdropWhile isQuote))
      else none
  else none

/-- The first flag with a word behind it decides. -/
def flagValueFrom (quoted : List (Nat × Nat)) : Option (Nat × Text) → List (Nat × Text) →
    Option (String × String)
  | _, [] => none
  | previous, word :: words =>
    match previous.bind fun previous => flagAndWord m quoted previous word with
    | some found => some found
    | none => flagValueFrom quoted (some word) words

def flagValue (line : String) (quoted : List (Nat × Nat)) : Option (String × String) :=
  flagValueFrom m quoted none (wordIndices line)

/-- What the equals signs of a text show that stands behind `before`. -/
def assignmentFrom (quoted : List (Nat × Nat)) (before : Text) : Text → Option String
  | [] => none
  | c :: s =>
    if c != '=' || inQuoted quoted (byteLen before) then assignmentFrom quoted (before ++ [c]) s
    else
      match secretWord m (keyTokenBefore before) with
      | none => assignmentFrom quoted (before ++ [c]) s
      | some word =>
        match liveValue m word (String.ofList (valueAfterEq s)) with
        | some message => some message
        | none => assignmentFrom quoted (before ++ [c]) s

def assignmentSecret (line : String) : Option String :=
  let quoted := quotedSpans line
  match assignmentFrom m quoted [] line.toList with
  | some message => some message
  | none => (flagValue m line quoted).bind fun found => liveValue m found.1 found.2

/-- A password that is a literal of the documentation, or a placeholder. -/
def isDocPassword (clean : String) : Bool :=
  clean = "" || clean = "password" || clean = "user" || Str.toAsciiLowercase clean = "changeme" ||
    Str.contains clean "example" || Str.contains clean "..." || Str.contains clean "***" ||
    isPlaceholderOnly clean

def cleanPassword (pass : Text) : String :=
  String.ofList (pass.filter fun c => !(isQuote c || c == '[' || c == ']'))

/-- What stands between the slashes of a URL and the first at-sign. -/
def credentialIn (after : Text) : Option String :=
  match Str.splitOnceChars ['@'] after with
  | none => none
  | some (creds, _) =>
    match Str.splitOnceChars [':'] creds with
    | none => none
    | some (user, pass) =>
      if user = [] || pass = [] then none
      else if isDocPassword (cleanPassword pass) then none
      else some s!"URL-embedded credential for user `{String.ofList user}`"

/-- The position is one of the lower-case line and the slice one of the line itself, which panics
out of its characters. -/
def urlCredential (line lower : String) : Option (Option String) :=
  match findBytes lower "://" with
  | none => some none
  | some schemeEnd => (dropBytes line.toList (schemeEnd + 3)).map credentialIn

def tokenPrefixes : List String := ["sk-", "ghp_", "gho_", "xoxb-", "xoxp-", "AKIA"]

def isTokenChar (c : Char) : Bool := m.isAlphanumeric c || c == '-' || c == '_' || c == '.'

/-- The run of token characters behind the first occurrence of a marker. -/
def tokenShape (line token : String) : Option String :=
  match Str.splitOnceChars token.toList line.toList with
  | none => none
  | some (_, after) =>
    let tail := byteLen (after.takeWhile (isTokenChar m))
    if 8 ≤ tail then some s!"{token}… token-shaped value ({tail} chars)" else none

def pemBlock (line : String) : Option String :=
  if Str.contains line "-----BEGIN" && Str.contains line "PRIVATE KEY" then
    some "PEM private key block"
  else none

def scanLine (line : String) : Option (Option String) :=
  match urlCredential line (m.lower line) with
  | none => none
  | some (some message) => some (some message)
  | some none =>
    some (((tokenPrefixes.findSome? (tokenShape m line)).or (pemBlock line)).or
      (assignmentSecret m line))

/-- A line that the scan leaves out. -/
def isComment (line : String) : Bool := Str.trim line = "" || Str.startsWith (Str.trim line) "#"

/-- `n` lines stand in front. -/
def scanLines (n : Nat) : List String → Option (List Finding)
  | [] => some []
  | line :: lines =>
    if isComment line then scanLines (n + 1) lines
    else
      match scanLine m line with
      | none => none
      | some message =>
        (scanLines (n + 1) lines).map fun found =>
          (message.map (Finding.mk (n + 1))).toList ++ found

def scanFile (content : String) : Option (List Finding) := scanLines m 0 (Str.lines content)

end Scan

end Shellflow.Audit
