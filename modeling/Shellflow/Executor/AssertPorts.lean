import Shellflow.Rbatch

/-! The port checks of `@assert_port` and `@assert_port_free`: the command each one sends to the
target, as text and as a command of the shell, and the verdict its section reports. -/
namespace Shellflow
open Shell

def defaultPortTimeoutSecs : Nat := 60

section Text

/-- `checks.join("; ")` over one piece of text for each port. -/
def joinChecks (check : Nat → String) (ports : List Nat) : String :=
  Str.join "; " (ports.map check)

def portCheckText (budget : String) (port : Nat) : String :=
  "if sfw_wait_port " ++ toString port ++ " " ++ budget ++ "; then echo 'port " ++ toString port ++
    " is listening'; else echo 'port " ++ toString port ++ " is not listening after " ++ budget ++
    "s'; false; fi"

/-- The command of a `Port` check. -/
def portCommandText (ports : List Nat) (udp : Bool) (stepTimeout : Option Nat) : String :=
  let budget := toString (stepTimeout.getD defaultPortTimeoutSecs)
  let sockets := if udp then "-uln" else "-tln"
  "sfw_wait_port() \x7b p=\"$1\"; d=$(( $(date +%s) + $2 )); while :; do if ss " ++ sockets ++
    " 2>/dev/null | grep -qE \":$\x7bp\x7d[[:space:]]\"; then return 0; fi; " ++
    "if [ \"$(date +%s)\" -ge \"$d\" ]; then return 1; fi; sleep 2; done; \x7d; " ++
    joinChecks (portCheckText budget) ports

def portFreeCheckText (port : Nat) : String :=
  "if ss -ltn 2>/dev/null | grep -qE \":$\x7bp\x7d[[:space:]]\"; then echo 'port " ++
    toString port ++ " is occupied:'; sfw_occupant " ++ toString port ++
    "; false; else echo 'port " ++ toString port ++ " is free'; fi"

/-- The function that names the occupant of a port. -/
def occupantText : String :=
  "sfw_occupant() \x7b p=\"$1\"; " ++
    "ss -ltnp 2>/dev/null | grep -E \":$\x7bp\x7d[[:space:]]\" | head -2; " ++
    "(sudo -n nft list ruleset 2>/dev/null || nft list ruleset 2>/dev/null) " ++
    "| grep -E \"dport $\x7bp\x7d[^0-9]\" | head -3; " ++
    "(podman ps --format '\x7b\x7b.Names\x7d\x7d \x7b\x7b.Ports\x7d\x7d' 2>/dev/null || true) " ++
    "| grep -E \"(^|[\\s:])$\x7bp\x7d->\" | head -3; " ++
    "return 0; \x7d; "

/-- The command of a `PortFree` check. -/
def portFreeCommandText (ports : List Nat) : String :=
  occupantText ++ joinChecks portFreeCheckText ports

end Text

section Commands

def litWords (texts : List String) : Cmd := .simple (texts.map litWord)

/-- A list of commands with a semicolon between each two. -/
def seqAll : List Cmd → Cmd
  | [] => .simple []
  | [c] => c
  | c :: d :: cs => .seq c (seqAll (d :: cs))

/-- A double-quoted pattern around the variable `p`. -/
def portPattern (before after : String) : Word :=
  .joined [.double [.lit before, .braced "p", .lit after]]

/-- `ss … 2>/dev/null | grep -qE ":${p}[[:space:]]"` -/
def probeSockets (flags : String) : Cmd :=
  .pipe (.redirect (litWords ["ss", flags]) [.errNull])
    (.simple [litWord "grep", litWord "-qE", portPattern ":" "[[:space:]]"])

def readClock : Cmd := litWords ["date", "+%s"]

/-- `[ "$(date +%s)" -ge "$d" ]` -/
def deadlineTest : Cmd :=
  .simple [litWord "[", .joined [.double [.subst readClock]], litWord "-ge", quotedVar "d",
    litWord "]"]

def waitRound (sockets : String) : Cmd :=
  .seq (.when (probeSockets sockets) (litWords ["return", "0"]))
    (.seq (.when deadlineTest (litWords ["return", "1"]))
      (litWords ["sleep", "2"]))

def waitPort (sockets : String) : Cmd :=
  .seq (.assign "p" (.joined [.double [.arg 1]]))
    (.seq (.assign "d" (.bare (.sum (.subst readClock) (.arg 2))))
      (.loop (litWords [":"]) (waitRound sockets)))

def echoText (text : String) : Cmd := .simple [litWord "echo", .joined [.single text]]

def portCheck (budget : String) (port : Nat) : Cmd :=
  .cond (litWords ["sfw_wait_port", toString port, budget])
    (echoText ("port " ++ toString port ++ " is listening"))
    (.seq (echoText ("port " ++ toString port ++ " is not listening after " ++ budget ++ "s"))
      (litWords ["false"]))

def portCommand (ports : List Nat) (udp : Bool) (stepTimeout : Option Nat) : Cmd :=
  let budget := toString (stepTimeout.getD defaultPortTimeoutSecs)
  .seq (.fn "sfw_wait_port" (waitPort (if udp then "-uln" else "-tln")))
    (seqAll (ports.map (portCheck budget)))

def occupant : Cmd :=
  .seq (.assign "p" (.joined [.double [.arg 1]]))
    (.seq (.pipe (.redirect (litWords ["ss", "-ltnp"]) [.errNull])
        (.pipe (.simple [litWord "grep", litWord "-E", portPattern ":" "[[:space:]]"])
          (litWords ["head", "-2"])))
      (.seq (.pipe
          (.subshell (.or
            (.redirect (litWords ["sudo", "-n", "nft", "list", "ruleset"]) [.errNull])
            (.redirect (litWords ["nft", "list", "ruleset"]) [.errNull])))
          (.pipe (.simple [litWord "grep", litWord "-E", portPattern "dport " "[^0-9]"])
            (litWords ["head", "-3"])))
        (.seq (.pipe
            (.subshell (.or
              (.redirect (.simple [litWord "podman", litWord "ps", litWord "--format",
                .joined [.single "\x7b\x7b.Names\x7d\x7d \x7b\x7b.Ports\x7d\x7d"]]) [.errNull])
              (litWords ["true"])))
            (.pipe (.simple [litWord "grep", litWord "-E", portPattern "(^|[\\s:])" "->"])
              (litWords ["head", "-3"])))
          (litWords ["return", "0"]))))

def portFreeCheck (port : Nat) : Cmd :=
  .cond (probeSockets "-ltn")
    (.seq (echoText ("port " ++ toString port ++ " is occupied:"))
      (.seq (litWords ["sfw_occupant", toString port]) (litWords ["false"])))
    (echoText ("port " ++ toString port ++ " is free"))

def portFreeCommand (ports : List Nat) : Cmd :=
  .seq (.fn "sfw_occupant" occupant) (seqAll (ports.map portFreeCheck))

end Commands

section Rendered

theorem render_seq (a b : Cmd) : (Cmd.seq a b).render = a.render ++ ("; " ++ b.render) := rfl

theorem render_seqAll (cs : List Cmd) :
    (seqAll cs).render = Str.join "; " (cs.map Cmd.render) := by
  induction cs with
  | nil => rfl
  | cons c cs ih =>
    cases cs with
    | nil => simp [seqAll, Str.join]
    | cons d cs =>
      apply String.toList_inj.mp
      simp [seqAll, Cmd.render, ih, Str.join]

theorem render_checks {check : Nat → Cmd} {text : Nat → String}
    (h : ∀ port, (check port).render = text port) (ports : List Nat) :
    (seqAll (ports.map check)).render = joinChecks text ports := by
  rw [render_seqAll, List.map_map, joinChecks]
  congr 2
  exact funext h

theorem render_portCheck (budget : String) (port : Nat) :
    (portCheck budget port).render = portCheckText budget port := by
  unfold portCheck portCheckText
  generalize toString port = text
  apply String.toList_inj.mp
  simp [echoText, litWords, litWord, Cmd.render, Word.render, renderSegs, Seg.render, renderWords]

theorem render_portFreeCheck (port : Nat) :
    (portFreeCheck port).render = portFreeCheckText port := by
  unfold portFreeCheck portFreeCheckText
  generalize toString port = text
  apply String.toList_inj.mp
  simp [echoText, probeSockets, portPattern, litWords, litWord, Cmd.render, Word.render,
    renderSegs, Seg.render, renderParts, Part.render, renderWords, renderRedirs, Redir.render]

theorem render_waitPort (udp : Bool) (rest : String) :
    (Cmd.fn "sfw_wait_port" (waitPort (if udp then "-uln" else "-tln"))).render ++
        ("; " ++ rest) =
      "sfw_wait_port() \x7b p=\"$1\"; d=$(( $(date +%s) + $2 )); while :; do if ss " ++
        (if udp then "-uln" else "-tln") ++
        " 2>/dev/null | grep -qE \":$\x7bp\x7d[[:space:]]\"; then return 0; fi; " ++
        "if [ \"$(date +%s)\" -ge \"$d\" ]; then return 1; fi; sleep 2; done; \x7d; " ++ rest := by
  rw [← String.append_assoc]
  congr 1
  cases udp <;> decide +kernel

theorem render_portCommand (ports : List Nat) (udp : Bool) (stepTimeout : Option Nat) :
    (portCommand ports udp stepTimeout).render = portCommandText ports udp stepTimeout := by
  unfold portCommand portCommandText
  dsimp only
  rw [render_seq, render_checks (render_portCheck _), render_waitPort]

theorem render_occupant (rest : String) :
    (Cmd.fn "sfw_occupant" occupant).render ++ ("; " ++ rest) = occupantText ++ rest := by
  have hfn : (Cmd.fn "sfw_occupant" occupant).render ++ "; " = occupantText := by decide +kernel
  rw [← String.append_assoc, hfn]

theorem render_portFreeCommand (ports : List Nat) :
    (portFreeCommand ports).render = portFreeCommandText ports := by
  unfold portFreeCommand portFreeCommandText
  rw [render_seq, render_checks render_portFreeCheck]
  exact render_occupant _

end Rendered

end Shellflow
