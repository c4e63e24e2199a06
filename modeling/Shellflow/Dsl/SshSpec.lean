import Shellflow.Text

/-! The errors of the playbook parser, and the `[user@]host[:port]` destinations. -/
namespace Shellflow

inductive ParseError
  | invalidSshSpec (line : Nat) (spec reason : String)
  | duplicateServer (line : Nat) (name : String)
  | unknownGroupMember (line : Nat) (group server : String)
  | invalidDirective (line : Nat) (directive reason : String)
  | unknownDirective (line : Nat) (directive : String)
  | exportNotAfterLocal (line : Nat)
  | unterminatedHeredoc (line : Nat) (delimiter : String)
  | emptyTarget (target : String)
deriving DecidableEq, Repr

structure SshSpec where
  user : Option String
  host : String
  port : Option Nat
deriving DecidableEq, Repr

namespace SshSpec

/-- The line is filled in by the directive that declares the destination. -/
def invalid {α : Type} (spec reason : String) : Except ParseError α :=
  .error (.invalidSshSpec 0 spec reason)

def isValidSpecComponent (component : String) : Bool :=
  component ≠ "" && !Str.startsWith component "." && !Str.startsWith component "-" &&
    Str.all component fun c => isAsciiAlphanumeric c || c == '.' || c == '_' || c == '-'

def isIpv6Literal (host : String) : Bool :=
  Str.contains host ":" && (Str.all host fun c => isAsciiHexdigit c || c == ':' || c == '.') &&
    host.toList.any isAsciiHexdigit

def hostIsWellFormed (host : String) : Bool :=
  if Str.contains host ":" then isIpv6Literal host else isValidSpecComponent host

def parsePort (raw spec : String) : Except ParseError Nat :=
  match Str.parseU16 raw with
  | none => invalid spec s!"invalid port `{raw}`"
  | some 0 => invalid spec "invalid port `0` (must be 1-65535)"
  | some port => .ok port

def parseUser (spec : String) : Except ParseError (Option String × String) :=
  match Str.splitOnce spec "@" with
  | none => .ok (none, spec)
  | some (user, rest) =>
    if user = "" then invalid spec "empty user before `@`"
    else if isValidSpecComponent user then .ok (some user, rest)
    else invalid spec s!"invalid user `{user}` (allowed: letters, digits, `.`, `_`, `-`)"

def parseBracketed (bracketed spec : String) : Except ParseError (String × Option Nat) :=
  match Str.splitOnce bracketed "]" with
  | none => invalid spec "unclosed `[` in an IPv6 destination"
  | some (host, tail) =>
    if host = "" || !isIpv6Literal host then
      invalid spec s!"invalid IPv6 address `{host}` (allowed: hex digits, `:`, `.`)"
    else if tail = "" then .ok (host, none)
    else
      match Str.stripPrefix tail ":" with
      | none => invalid spec s!"unexpected `{tail}` after `]`"
      | some raw => do
        let port ← parsePort raw spec
        .ok (host, some port)

def parsePlain (rest spec : String) : Except ParseError (String × Option Nat) :=
  match Str.rsplitOnceChar rest ':' with
  | none => .ok (rest, none)
  | some (host, port) =>
    if Str.contains host ":" then
      invalid spec
        s!"bare IPv6 address `{rest}` is ambiguous (use `[{rest}]` or `[addr]:port`)"
    else do
      let port ← parsePort port spec
      .ok (host, some port)

def parse (spec : String) : Except ParseError SshSpec := do
  let (user, rest) ← parseUser spec
  let (host, port) ←
    match Str.stripPrefix rest "[" with
    | some bracketed => parseBracketed bracketed spec
    | none => parsePlain rest spec
  if host = "" then invalid spec "empty host"
  else if hostIsWellFormed host then .ok ⟨user, host, port⟩
  else invalid spec s!"invalid host `{host}` (allowed: letters, digits, `.`, `_`, `-`)"

end SshSpec
end Shellflow
