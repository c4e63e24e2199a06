import Shellflow.Lib.Assoc
import Shellflow.Mask.Masker
import Shellflow.Service.Manifest

/-! What the audit of a unit finds in the answers of the host. -/
namespace Shellflow.ServiceCheck

inductive Check where
  | ok | warn | fail
  deriving DecidableEq

/-- The case mappings of the character database; on ASCII they are the ones of ASCII. -/
structure CaseMapping where
  lower : String → String
  upper : String → String
  lower_ascii : ∀ s : String, (∀ c ∈ s.toList, c.toNat < 128) → lower s = Str.toAsciiLowercase s
  upper_ascii : ∀ s : String, (∀ c ∈ s.toList, c.toNat < 128) → upper s = Str.toAsciiUppercase s

section Bytes

/-- `&s[n..]` -/
def dropBytes : List Char → Nat → Option (List Char)
  | [], n => if n = 0 then some [] else none
  | c :: s, n =>
    if n = 0 then some (c :: s)
    else if c.utf8Size ≤ n then dropBytes s (n - c.utf8Size)
    else none

/-- `str::find` -/
def findBytes (s pat : String) : Option Nat := (Str.splitOnce s pat).map fun p => byteLen p.1.toList

def lenBytes (s : String) : Nat := byteLen s.toList

theorem findBytes_eq (s pat : String) : findBytes s pat =
    (Str.splitOnceChars pat.toList s.toList).map fun p => byteLen p.1 := by
  rw [findBytes, Str.splitOnce, Option.map_map]
  exact congrArg (Option.map · _) (funext fun p => congrArg byteLen String.toList_ofList)

/-- A slice starts between two characters. -/
theorem dropBytes_eq_some {s after : List Char} {n : Nat} :
    dropBytes s n = some after ↔ ∃ front, s = front ++ after ∧ byteLen front = n := by
  induction s generalizing n with
  | nil =>
    rw [dropBytes]
    constructor
    · intro h
      by_cases hn : n = 0
      · rw [if_pos hn] at h
        cases h
        exact ⟨[], rfl, hn.symm⟩
      · rw [if_neg hn] at h
        cases h
    · rintro ⟨front, heq, hlen⟩
      obtain ⟨rfl, rfl⟩ := List.append_eq_nil_iff.mp heq.symm
      rw [← hlen, byteLen, if_pos rfl]
  | cons c s ih =>
    have hpos : 0 < c.utf8Size := c.utf8Size_pos
    rw [dropBytes]
    constructor
    · intro h
      by_cases hn : n = 0
      · rw [if_pos hn] at h
        cases h
        exact ⟨[], rfl, hn.symm⟩
      · rw [if_neg hn] at h
        by_cases hle : c.utf8Size ≤ n
        · rw [if_pos hle] at h
          obtain ⟨front, rfl, hlen⟩ := ih.mp h
          refine ⟨c :: front, rfl, ?_⟩
          rw [byteLen, hlen]
          omega
        · rw [if_neg hle] at h
          cases h
    · rintro ⟨front, heq, hlen⟩
      cases front with
      | nil =>
        rw [← hlen, byteLen, if_pos rfl, heq]
        rfl
      | cons d front =>
        obtain ⟨rfl, rfl⟩ := List.cons.inj heq
        rw [byteLen] at hlen
        rw [if_neg (by omega), if_pos (by omega)]
        exact ih.mpr ⟨front, rfl, by omega⟩

end Bytes

section Secrets
variable (m : CaseMapping)

def argvFlags : List String :=
  ["--database-password ", "--password ", "--token ", "--api-key ", "--secret "]

def pairHasSecret (pair : String) : Bool :=
  match Str.splitOnce pair "=" with
  | none => false
  | some (name, value) =>
    let name := m.upper name
    8 ≤ lenBytes value &&
      (Str.contains name "PASSWORD" || Str.contains name "SECRET" || Str.endsWith name "_TOKEN" ||
        Str.endsWith name "_KEY") &&
      !(Str.startsWith value "/" || Str.contains value "$\x7b")

def lineHasSecret (line : String) : Bool :=
  argvFlags.any (fun flag => Str.contains (m.lower line) flag) ||
    match Str.stripPrefix line "Environment=" with
    | none => false
    | some pairs => (Str.splitChar pairs ' ').any (pairHasSecret m)

def hasArgvSecret (shown : String) : Bool := (Str.lines shown).any (lineHasSecret m)

def leakKeys : List String := ["PASSWORD=", "SECRET=", "_TOKEN=", "PRIVATE_KEY=", "API_KEY="]

/-- The position is one of the upper-case line and the slice one of the line itself, which panics
out of its characters. -/
def leakUnder (line : String) : List String → Option Bool
  | [] => some false
  | key :: keys =>
    match findBytes (m.upper line) key with
    | none => leakUnder line keys
    | some pos =>
      match dropBytes line.toList (pos + lenBytes key) with
      | none => none
      | some after =>
        let value := String.ofList (after.takeWhile fun c => !Str.isWhitespace c)
        if 12 ≤ lenBytes value && !Str.contains value "$\x7b" then some true
        else leakUnder line keys

def looksLikeLeak (line : String) : Option Bool := leakUnder m line leakKeys

/-- The first lines that look like one; the lines after them are not looked at. -/
def takeLeaks : Nat → List String → Option (List String)
  | 0, _ => some []
  | _ + 1, [] => some []
  | n + 1, line :: lines =>
    match looksLikeLeak m line with
    | none => none
    | some true => (takeLeaks n lines).map fun leaks => line :: leaks
    | some false => takeLeaks (n + 1) lines

def journalLeaks (journal : String) : Option (List String) := takeLeaks m 3 (Str.lines journal)

end Secrets

section Paths

def missingPath (line : String) : Option String :=
  match Str.splitWhitespace line with
  | [] => none
  | status :: parts =>
    if status ≠ "missing" then none
    else
      let path := parts.getD 1 ""
      if path = "" then none else some (parts.headD "" ++ "=" ++ path)

def missingPaths (paths : String) : List String := (Str.lines paths).filterMap missingPath

end Paths

section Props

def parseShowProps (shown : String) : List (String × String) :=
  (Str.lines shown).filterMap fun line =>
    (Str.splitOnce line "=").map fun p => (Str.trim p.1, p.2)

/-- A later line replaces an earlier one. -/
def getProp (shown key : String) : String := (Assoc.last? key (parseShowProps shown)).getD ""

def journalContains (m : CaseMapping) (journal needle : String) : Bool :=
  Str.contains (m.lower journal) needle

def timeoutStartIsShort (value : String) : Bool :=
  let v := (Str.trim value).toList
  if v = [] ∨ v = "infinity".toList then false
  else
    let unit := v.dropWhile Str.isAsciiDigit
    match Str.parseU64 (String.ofList (v.takeWhile Str.isAsciiDigit)) with
    | none => false
    | some n => if unit = [] ∨ unit = ['s'] then n < 30 else unit = ['m', 's']

abbrev Verdict := String × Check

def isNotify (unitType : String) : Bool := unitType == "notify" || unitType == "notify-reload"

def notifyFindings (m : CaseMapping) (shown journal : String) : List Verdict :=
  let unitType := getProp shown "Type"
  let watchdog := (Str.parseU64 (Str.trim (getProp shown "WatchdogUSec"))).getD 0
  let timeoutStart := getProp shown "TimeoutStartSec"
  (if isNotify unitType && getProp shown "NotifyAccess" == "none" then
    [("Type=" ++ unitType ++ " with NotifyAccess=none: the unit can never become ready " ++
      "(systemd kills it at TimeoutStartSec)", Check.fail)] else []) ++
  (if unitType == "notify-reload" && Str.trim (getProp shown "ExecReload") == "" then
    [("Type=notify-reload without ExecReload=: the reload is a no-op", .fail)] else []) ++
  (if 0 < watchdog && journalContains m journal "watchdog timeout" then
    [("WatchdogSec=" ++ toString watchdog ++ " is configured but the service never pinged it " ++
      "(systemd killed it -- look for a missing WATCHDOG=1 in the service)", .fail)] else []) ++
  (if isNotify unitType && journalContains m journal "no ready=1 notification" then
    [("the service never sent READY=1 (systemd reported it)", .fail)] else []) ++
  (if isNotify unitType && getProp shown "ActiveState" == "activating" &&
      Str.trim (getProp shown "StatusText") == "" then
    [("no STATUS= published while the unit is starting: the operator has no progress signal",
      .warn)] else []) ++
  (if isNotify unitType && timeoutStartIsShort timeoutStart then
    [("Type=" ++ unitType ++ " with a short TimeoutStartSec=" ++ timeoutStart, .warn)] else [])

end Props

section Invariants

/-- The units that claim each runtime directory; `current` is the unit of the last `Id` line. -/
def fleetOwners (fleet : String) : List (String × List String) :=
  ((Str.lines fleet).foldl (fun (state : String × List (String × List String)) line =>
    match Str.splitOnce line "=" with
    | none => state
    | some (key, value) =>
      let value := Str.trim value
      if Str.trim key = "Id" then (value, state.2)
      else if Str.trim key = "RuntimeDirectory" ∧ value ≠ "" ∧ state.1 ≠ "" then
        (state.1, (Str.splitWhitespace value).foldl
          (fun owners dir => Assoc.pushUnder manifestLe owners dir state.1) state.2)
      else state) ("", [])).2

def sharedDirFindings (shown fleet : String) : List Verdict :=
  let ownDirs := Str.splitWhitespace (Str.trim (getProp shown "RuntimeDirectory"))
  (fleetOwners fleet).filterMap fun (dir, units) =>
    if units.length < 2 then none
    else some ("RuntimeDirectory=" ++ dir ++ " is claimed by " ++ toString units.length ++ " units (" ++
      Str.join ", " units ++ "): systemd removes and recreates it on every start, so starting one " ++
        "wipes the files of the others", if dir ∈ ownDirs then .fail else .warn)

def unitInvariantFindings (shown fleet : String) : List Verdict :=
  let unitType := getProp shown "Type"
  let restart := Str.trim (getProp shown "Restart")
  let protectHome := Str.trim (getProp shown "ProtectHome")
  let unset := fun key => Str.trim (getProp shown key) == ""
  sharedDirFindings shown fleet ++
  (if isNotify unitType && unset "TimeoutStartUSec" then
    [("Type=" ++ unitType ++ " without TimeoutStartSec=: systemd's 90 s default kills a " ++
      "service that needs longer to initialise", Check.warn)] else []) ++
  (if restart ≠ "" ∧ restart ≠ "no" ∧ unset "StartLimitBurst" then
    [("Restart=" ++ restart ++ " without StartLimitBurst=: systemd's default burst (5 restarts " ++
      "in 10 s) kills a flapping service and leaves it dead", .warn)] else []) ++
  (if unset "NoNewPrivileges" && unset "ProtectSystem" && unset "PrivateTmp" then
    [("the unit has no hardening at all (no NoNewPrivileges=, ProtectSystem=, or PrivateTmp=)",
      .warn)] else []) ++
  (if protectHome ≠ "" ∧ protectHome ≠ "false" ∧ protectHome ≠ "no" ∧
      (Str.splitWhitespace (getProp shown "ReadWritePaths")).any fun p => Str.startsWith p "/home/"
    then [("ProtectHome=" ++ protectHome ++ " with a ReadWritePaths= under /home: the path depends " ++
      "on a home directory, which a home-directory cleanup silently breaks", .warn)] else [])

end Invariants

section Ports

/-- A line of the NAT or container block is context, not a socket. -/
def isContextLine (line : String) : Bool :=
  Str.startsWith line "ip " || Str.startsWith line "tcp " || Str.startsWith line "udp " ||
    Str.startsWith line "meta "

def listeningPort (line : String) : Option String :=
  let trimmed := Str.trim line
  if trimmed = "" || Str.startsWith trimmed "---" || Str.startsWith trimmed "State" ||
      isContextLine trimmed then none
  else
    let fields := Str.splitWhitespace trimmed
    if fields.headD "" ≠ "LISTEN" then none
    else
      let addr := fields.getD 3 ""
      let port := (Str.splitChar addr ':').getLastD ""
      if port = "" || port = "*" then none
      else
        let occupant := Str.join " " (fields.drop 5)
        some (if occupant = "" then "listening " ++ addr ++ " (no owning process visible)"
          else "listening " ++ addr ++ " " ++ occupant)

def listeningPorts (ports : String) : List String := (Str.lines ports).filterMap listeningPort

end Ports

section Silence
variable (m : CaseMapping)

theorem lines_empty : Str.lines "" = [] := by decide

/-- What the checks make of an answer that is not there. -/
theorem hasArgvSecret_empty : hasArgvSecret m "" = false := by rw [hasArgvSecret, lines_empty]; rfl

theorem missingPaths_empty : missingPaths "" = [] := by rw [missingPaths, lines_empty]; rfl

theorem journalLeaks_empty : journalLeaks m "" = some [] := by rw [journalLeaks, lines_empty]; rfl

theorem listeningPorts_empty : listeningPorts "" = [] := by rw [listeningPorts, lines_empty]; rfl

end Silence

end Shellflow.ServiceCheck
