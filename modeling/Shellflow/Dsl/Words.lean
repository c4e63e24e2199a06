import Shellflow.Dsl.Plan

/-! Reading one line: the directive in a comment, its words and its flags. -/
namespace Shellflow

/-- `cur` is the current word, reversed, and `quote` the quotation that is open. -/
def splitWordsFrom (cur : List Char) (inWord : Bool) (quote : Option Char) :
    List Char → List (List Char)
  | [] => if inWord then [cur.reverse] else []
  | [c] =>
    match quote with
    | some q => if c = q then [cur.reverse] else [(c :: cur).reverse]
    | none =>
      if c = '\'' || c = '"' then [cur.reverse]
      else if Str.isWhitespace c || c = '\\' then if inWord then [cur.reverse] else []
      else [(c :: cur).reverse]
  | c :: d :: rest =>
    match quote with
    | some q =>
      if c = q then splitWordsFrom cur true none (d :: rest)
      else if c = '\\' && q = '"' then
        if d = '$' || d = Char.ofNat 96 || d = '"' || d = '\\' then
          splitWordsFrom (d :: cur) true quote rest
        else if d = '\n' then splitWordsFrom cur true quote rest
        else splitWordsFrom (d :: '\\' :: cur) true quote rest
      else splitWordsFrom (c :: cur) true quote (d :: rest)
    | none =>
      if c = '\'' || c = '"' then splitWordsFrom cur true (some c) (d :: rest)
      else if Str.isWhitespace c then
        if inWord then cur.reverse :: splitWordsFrom [] false none (d :: rest)
        else splitWordsFrom cur false none (d :: rest)
      else if c = '\\' then splitWordsFrom (d :: cur) true none rest
      else splitWordsFrom (c :: cur) true none (d :: rest)

def splitWords (payload : String) : List String :=
  (splitWordsFrom [] false none payload.toList).map String.ofList

def invalidDirective {α : Type} (line : Nat) (directive reason : String) : Except ParseError α :=
  .error (.invalidDirective line directive reason)

def unknownFlag {α : Type} (directive flag : String) (line : Nat) : Except ParseError α :=
  invalidDirective line directive s!"unknown flag `{flag}`"

abbrev Flag := String × Option String

/-- The flags in `bools` take no value; every other one takes the next word unless that looks
like a flag itself. -/
def splitFlagsFrom (bools : List String) (directive : String) (line : Nat)
    (positional : List String) (flags : List Flag) :
    List String → Except ParseError (List String × List Flag)
  | [] => .ok (positional, flags)
  | [token] =>
    if !Str.startsWith token "--" then .ok (positional ++ [token], flags)
    else
      match Str.splitOnce token "=" with
      | some (flag, value) =>
        if flag ∈ bools then invalidDirective line directive s!"`{flag}` takes no value"
        else .ok (positional, flags ++ [(flag, some value)])
      | none => .ok (positional, flags ++ [(token, none)])
  | token :: next :: rest =>
    if !Str.startsWith token "--" then
      splitFlagsFrom bools directive line (positional ++ [token]) flags (next :: rest)
    else
      match Str.splitOnce token "=" with
      | some (flag, value) =>
        if flag ∈ bools then invalidDirective line directive s!"`{flag}` takes no value"
        else
          splitFlagsFrom bools directive line positional (flags ++ [(flag, some value)])
            (next :: rest)
      | none =>
        if token ∈ bools || Str.startsWith next "--" then
          splitFlagsFrom bools directive line positional (flags ++ [(token, none)]) (next :: rest)
        else
          splitFlagsFrom bools directive line positional (flags ++ [(token, some next)]) rest

def splitFlags (payload : String) (bools : List String) (directive : String) (line : Nat) :
    Except ParseError (List String × List Flag) :=
  splitFlagsFrom bools directive line [] [] (splitWords payload)

def flagValue (value : Option String) (flag directive : String) (line : Nat) :
    Except ParseError String :=
  match value with
  | some v => .ok v
  | none => invalidDirective line directive s!"`{flag}` expects a value"

/-- A target as it is written, without the at-signs. -/
def targetText (raw : String) : String := Str.trim (Str.trimStartMatches raw '@')

def requireTarget (raw directive : String) (line : Nat) : Except ParseError String :=
  if targetText raw = "" then invalidDirective line directive "missing target"
  else .ok (targetText raw)

def parseSecs (raw directive : String) (line : Nat) : Except ParseError Nat :=
  match Str.parseU64 raw with
  | none => invalidDirective line directive s!"invalid seconds `{raw}`"
  | some 0 => invalidDirective line directive "must be greater than zero"
  | some secs => .ok secs

def parseMode (raw directive : String) (line : Nat) : Except ParseError Nat :=
  let trimmed := Str.trim raw
  let digits := (Str.stripPrefix trimmed "0o").getD trimmed
  if digits = "" || !(Str.all digits fun c => '0' ≤ c && c ≤ '7') then
    invalidDirective line directive s!"invalid octal mode `{raw}`"
  else
    match Str.parseUnsignedChars 8 4294967296 digits.toList with
    | some mode => .ok mode
    | none => invalidDirective line directive s!"invalid octal mode `{raw}` (out of range for u32)"

def parseOwner (raw directive : String) (line : Nat) : Except ParseError String :=
  let owner := Str.trim raw
  let validPart (part : String) : Bool :=
    part ≠ "" && Str.all part fun c => isAsciiAlphanumeric c || c == '-' || c == '_' || c == '.'
  let ok : Bool :=
    match Str.splitChar owner ':' with
    | [user] => validPart user
    | [user, group] =>
      (user = "" || validPart user) && (group = "" || validPart group) &&
        !(user = "" && group = "")
    | _ => false
  if ok then .ok owner
  else invalidDirective line directive s!"invalid owner `{raw}` (want `user` or `user:group`)"

/-- The length counts bytes, and a pattern that ends in `xx` has three of them only when its
first character is ASCII. -/
def isStatusPattern (pattern : String) : Bool :=
  match pattern.toList with
  | [c, 'x', 'x'] =>
    if c.toNat < 128 then Str.isAsciiDigit c else false
  | _ => (Str.parseU16 pattern).any fun code => 100 ≤ code && code < 600

def isValidAliasName (name : String) : Bool :=
  name ≠ "" && Str.all name fun c => isAsciiAlphanumeric c || c == '_' || c == '-' || c == '.'

def isKnownTool (name : String) : Bool :=
  name ∈ ["os", "aur", "rustup", "cargo", "go", "npm", "pipx", "uv", "foundry", "proto", "gh"]

def rejectGuard (hasGuard : Bool) (directive : String) (line : Nat) : Except ParseError Unit :=
  if hasGuard then
    invalidDirective line directive s!"`@only_if` is not supported on `@{directive}`"
  else .ok ()

/-- The keyword and the payload of a directive line. A keyword that runs into other characters
is handed back with them, so that it is reported as unknown. -/
def directive (line : List Char) : Option (String × String) :=
  match Str.trimStartChars line with
  | '#' :: comment =>
    match Str.trimStartChars comment with
    | '@' :: afterAt =>
      let keyword := afterAt.takeWhile fun c => isAsciiAlphanumeric c || c == '_'
      let rest := afterAt.dropWhile fun c => isAsciiAlphanumeric c || c == '_'
      if keyword.isEmpty then none
      else if rest.head?.any fun c => !Str.isWhitespace c then
        let token := rest.takeWhile fun c => !Str.isWhitespace c
        some (String.ofList (keyword ++ token), "")
      else some (String.ofList keyword, String.ofList (Str.trimChars rest))
    | _ => none
  | _ => none

end Shellflow
