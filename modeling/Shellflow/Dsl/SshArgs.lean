import Shellflow.Dsl.SshSpec
import Shellflow.Lib.Fallible

/-! The arguments that `ssh` gets for a destination, and the text that it is parsed from again. -/
namespace Shellflow.SshSpec
open Fallible

/-- A literal address stands in brackets. -/
def hostText (host : String) : String :=
  if Str.contains host ":" then "[" ++ (host ++ "]") else host

/-- The destination as `ssh` and `rsync` take it. -/
def dest (spec : SshSpec) : String :=
  match spec.user with
  | some user => user ++ ("@" ++ hostText spec.host)
  | none => hostText spec.host

def toSshArgs (spec : SshSpec) : List String :=
  (match spec.port with
    | some port => ["-p", toString port]
    | none => []) ++ [spec.dest]

/-- The port behind a destination. -/
def portText : Option Nat → String
  | some port => ":" ++ toString port
  | none => ""

def render (spec : SshSpec) : String := spec.dest ++ portText spec.port

/-- What the parser lets through. -/
structure WellFormed (spec : SshSpec) : Prop where
  user : ∀ user, spec.user = some user → isValidSpecComponent user = true
  host : hostIsWellFormed spec.host = true
  port : ∀ port, spec.port = some port → 1 ≤ port ∧ port ≤ 65535

section Characters

/-- The characters of a destination. -/
def isDestChar (c : Char) : Bool :=
  isAsciiAlphanumeric c || c ∈ ['.', '_', '-', ':', '[', ']', '@']

theorem contains_colon {s : String} : Str.contains s ":" = true ↔ ':' ∈ s.toList := by
  rw [Str.contains, decide_eq_true_eq]
  exact List.singleton_infix_iff ':' s.toList

theorem isAsciiAlphanumeric_of_hexdigit {c : Char} (h : isAsciiHexdigit c = true) :
    isAsciiAlphanumeric c = true := by
  simp only [isAsciiHexdigit, isAsciiAlphanumeric, isAsciiAlphabetic, Bool.or_eq_true,
    Bool.and_eq_true, decide_eq_true_eq] at h ⊢
  obtain (hdigit | ⟨hlow, hhigh⟩) | ⟨hlow, hhigh⟩ := h
  · exact .inr hdigit
  · exact .inl (.inl ⟨hlow, Char.le_trans hhigh (by decide)⟩)
  · exact .inl (.inr ⟨hlow, Char.le_trans hhigh (by decide)⟩)

theorem componentChar {component : String} (h : isValidSpecComponent component = true) :
    ∀ c ∈ component.toList, isAsciiAlphanumeric c = true ∨ c = '.' ∨ c = '_' ∨ c = '-' := by
  intro c hc
  simp only [isValidSpecComponent, Str.all, Bool.and_eq_true, List.all_eq_true] at h
  simpa [or_assoc] using h.2 c hc

theorem hostChar {host : String} (h : hostIsWellFormed host = true) :
    ∀ c ∈ host.toList, isAsciiAlphanumeric c = true ∨ c = '.' ∨ c = '_' ∨ c = '-' ∨ c = ':' := by
  intro c hc
  rw [hostIsWellFormed] at h
  split at h
  case isTrue =>
    simp only [isIpv6Literal, Str.all, Bool.and_eq_true, List.all_eq_true] at h
    have hchar := h.1.2 c hc
    simp only [Bool.or_eq_true, beq_iff_eq] at hchar
    obtain (hhex | hcolon) | hdot := hchar
    · exact .inl (isAsciiAlphanumeric_of_hexdigit hhex)
    · exact .inr (.inr (.inr (.inr hcolon)))
    · exact .inr (.inl hdot)
  case isFalse =>
    obtain hletter | hdot | hunder | hdash := componentChar h c hc
    · exact .inl hletter
    · exact .inr (.inl hdot)
    · exact .inr (.inr (.inl hunder))
    · exact .inr (.inr (.inr (.inl hdash)))

theorem isDestChar_bounds {c : Char} (h : isDestChar c = true) : 33 ≤ c.toNat ∧ c.toNat ≤ 126 := by
  simp only [isDestChar, Bool.or_eq_true, decide_eq_true_eq, List.mem_cons, List.not_mem_nil,
    or_false] at h
  obtain hletter | rfl | rfl | rfl | rfl | rfl | rfl | rfl := h
  · obtain ⟨hlow, hhigh, -⟩ := varChar_bounds (c := c) (by rw [hletter, Bool.true_or])
    have hlow : 48 ≤ c.toNat := hlow
    have hhigh : c.toNat < 123 := hhigh
    omega
  all_goals decide

/-- No character of a destination is a blank or a control character. -/
theorem printable_of_isDestChar {c : Char} (h : isDestChar c = true) :
    Str.isWhitespace c = false ∧ isControl c = false := by
  obtain ⟨hlow, hhigh⟩ := isDestChar_bounds h
  constructor
  · simp only [Str.isWhitespace, Bool.or_eq_false_iff, Bool.and_eq_false_iff, beq_eq_false_iff_ne,
      decide_eq_false_iff_not]
    omega
  · simp only [isControl, Bool.or_eq_false_iff, Bool.and_eq_false_iff, decide_eq_false_iff_not]
    omega

end Characters

section Parsing

theorem component_ne_empty {component : String} (h : isValidSpecComponent component = true) :
    component ≠ "" := by
  rintro rfl
  cases h

theorem component_head {component : String} (h : isValidSpecComponent component = true) :
    ∃ c rest, component.toList = c :: rest ∧ c ≠ '-' ∧ isDestChar c = true := by
  obtain ⟨c, rest, hc⟩ := List.exists_cons_of_ne_nil
    (mt String.toList_eq_nil_iff.mp (component_ne_empty h))
  refine ⟨c, rest, hc, ?_, ?_⟩
  · rintro rfl
    simp [isValidSpecComponent, Str.startsWith, hc] at h
  · have hchar := componentChar h c (hc ▸ List.mem_cons_self)
    simp only [isDestChar, Bool.or_eq_true, decide_eq_true_eq, List.mem_cons]
    tauto

theorem parsePort_toString {port : Nat} (spec : String) (hport : 1 ≤ port ∧ port ≤ 65535) :
    parsePort (toString port) spec = .ok port := by
  have hplus : (toString port).toList.head? ≠ some '+' := by
    intro hhead
    have hmem : '+' ∈ (toString port).toList := List.mem_of_head? hhead
    exact absurd (Str.isDigit_of_mem_toString hmem) (by decide)
  have hparse : Str.parseU16 (toString port) = some port := by
    have hlt : port < 65536 := by omega
    rw [Str.parseU16, Str.parseUnsignedChars, if_neg hplus, if_neg (by simp),
      Str.digitsValue_toString, Option.filter_some, if_pos (decide_eq_true hlt)]
  rw [parsePort, hparse]
  cases port with
  | zero => omega
  | succ port => rfl

theorem lt_of_parseU16 {raw : String} {n : Nat} (h : Str.parseU16 raw = some n) : n < 65536 := by
  rw [Str.parseU16, Str.parseUnsignedChars] at h
  generalize (if raw.toList.head? = some '+' then raw.toList.drop 1 else raw.toList) = digits at h
  split at h
  · cases h
  · exact of_decide_eq_true (Option.filter_eq_some_iff.mp h).2

theorem of_parsePort {raw spec : String} {port : Nat} (h : parsePort raw spec = .ok port) :
    1 ≤ port ∧ port ≤ 65535 := by
  rw [parsePort] at h
  split at h
  · cases h
  · cases h
  · next port' hne hparse =>
    cases h
    have hlt := lt_of_parseU16 hparse
    have hpos : port ≠ 0 := fun hzero => hne hzero
    omega

theorem of_parseUser {text : String} {user : Option String} {rest : String}
    (h : parseUser text = .ok (user, rest)) : ∀ u, user = some u → isValidSpecComponent u = true := by
  intro u hu
  rw [parseUser] at h
  split at h
  · cases h
    cases hu
  · split at h
    · cases h
    · split at h
      case isTrue hvalid =>
        cases h
        cases hu
        exact hvalid
      case isFalse => cases h

/-- The host and the port behind the user. -/
def parseHost (rest text : String) : Except ParseError (String × Option Nat) :=
  match Str.stripPrefix rest "[" with
  | some bracketed => parseBracketed bracketed text
  | none => parsePlain rest text

def checkHost (text : String) (user : Option String) (host : String) (port : Option Nat) :
    Except ParseError SshSpec :=
  if host = "" then invalid text "empty host"
  else if hostIsWellFormed host then .ok ⟨user, host, port⟩
  else invalid text s!"invalid host `{host}` (allowed: letters, digits, `.`, `_`, `-`)"

theorem parse_eq (text : String) : parse text = parseUser text >>= fun u =>
    parseHost u.2 text >>= fun h => checkHost text u.1 h.1 h.2 := by
  rw [parse]
  refine bind_congr fun ⟨user, rest⟩ => ?_
  dsimp only
  rw [parseHost]
  cases Str.stripPrefix rest "[" with
  | none => rfl
  | some bracketed => rfl

theorem of_parseHost {rest text host : String} {port : Option Nat}
    (h : parseHost rest text = .ok (host, port)) : ∀ p, port = some p → 1 ≤ p ∧ p ≤ 65535 := by
  intro p hp
  subst hp
  have hbind : ∀ raw : String, ∀ host', (parsePort raw text >>= fun port =>
      (.ok (host', some port) : Except ParseError (String × Option Nat))) = .ok (host, some p) →
      1 ≤ p ∧ p ≤ 65535 := by
    intro raw host' hok
    obtain ⟨port, hport, heq⟩ := bind_eq_ok.mp hok
    cases heq
    exact of_parsePort hport
  rw [parseHost] at h
  split at h
  · rw [parseBracketed] at h
    split at h
    · cases h
    · split at h
      · cases h
      · split at h
        · cases h
        · split at h
          · cases h
          · exact hbind _ _ h
  · rw [parsePlain] at h
    split at h
    · cases h
    · split at h
      · cases h
      · exact hbind _ _ h

theorem wellFormed_of_parse {text : String} {spec : SshSpec} (h : parse text = .ok spec) :
    spec.WellFormed := by
  rw [parse_eq] at h
  obtain ⟨⟨user, rest⟩, huser, h⟩ := bind_eq_ok.mp h
  obtain ⟨⟨host, port⟩, hhost, h⟩ := bind_eq_ok.mp h
  rw [checkHost] at h
  split at h
  · cases h
  · split at h
    case isTrue hformed =>
      cases h
      exact ⟨of_parseUser huser, hformed, of_parseHost hhost⟩
    case isFalse => cases h

theorem splitOnce_append {a pat : String} {sep : Char} (hpat : pat.toList = [sep])
    (h : sep ∉ a.toList) (b : String) : Str.splitOnce (a ++ (pat ++ b)) pat = some (a, b) := by
  have htext : (a ++ (pat ++ b)).toList = a.toList ++ sep :: b.toList := by simp [hpat]
  rw [Str.splitOnce, htext, hpat, Str.splitOnceChars_of_notMem _ h, Option.map_some,
    String.ofList_toList, String.ofList_toList]

theorem parseUser_some {user : String} (h : isValidSpecComponent user = true) (rest : String) :
    parseUser (user ++ ("@" ++ rest)) = .ok (some user, rest) := by
  have hat : '@' ∉ user.toList := by
    intro hmem
    have hchar := componentChar h '@' hmem
    simp [isAsciiAlphanumeric, isAsciiAlphabetic, Str.isAsciiDigit] at hchar
  have hsplit : Str.splitOnce (user ++ ("@" ++ rest)) "@" = some (user, rest) :=
    splitOnce_append rfl hat rest
  rw [parseUser, hsplit]
  dsimp only
  rw [if_neg (component_ne_empty h), if_pos h]

theorem parseUser_none {text : String} (h : '@' ∉ text.toList) :
    parseUser text = .ok (none, text) := by
  have hat : "@".toList = ['@'] := rfl
  rw [parseUser, Str.splitOnce, hat, Str.splitOnceChars_eq_none h]
  rfl

theorem parseBracketed_portText {host : String} {port : Option Nat} (text : String)
    (hcolon : Str.contains host ":" = true) (hhost : isIpv6Literal host = true)
    (hport : ∀ p, port = some p → 1 ≤ p ∧ p ≤ 65535) :
    parseBracketed (host ++ ("]" ++ portText port)) text = .ok (host, port) := by
  have hne : host ≠ "" := by
    rintro rfl
    cases hcolon
  have hbracket : ']' ∉ host.toList := by
    intro hmem
    have hformed : hostIsWellFormed host = true := by rw [hostIsWellFormed, if_pos hcolon, hhost]
    have hchar := hostChar hformed ']' hmem
    simp [isAsciiAlphanumeric, isAsciiAlphabetic, Str.isAsciiDigit] at hchar
  have hsplit : Str.splitOnce (host ++ ("]" ++ portText port)) "]" = some (host, portText port) :=
    splitOnce_append rfl hbracket (portText port)
  rw [parseBracketed, hsplit]
  dsimp only
  rw [if_neg (by simp [hne, hhost])]
  cases port with
  | none => rfl
  | some p =>
    have hsome : portText (some p) ≠ "" := by
      intro h
      have hlist := congrArg String.toList h
      simp [portText] at hlist
    rw [if_neg hsome, portText, Str.stripPrefix_append]
    dsimp only
    rw [parsePort_toString text (hport p rfl)]
    rfl

theorem parsePlain_portText {host : String} {port : Option Nat} (text : String)
    (hcolon : Str.contains host ":" = false) (hport : ∀ p, port = some p → 1 ≤ p ∧ p ≤ 65535) :
    parsePlain (host ++ portText port) text = .ok (host, port) := by
  have hnone : ':' ∉ host.toList := by
    intro hmem
    rw [contains_colon.mpr hmem] at hcolon
    cases hcolon
  rw [parsePlain]
  cases port with
  | none =>
    rw [portText, String.append_empty, Str.rsplitOnceChar_eq_none hnone]
  | some p =>
    have hdigits : ':' ∉ (toString p).toList := by
      intro hmem
      exact absurd (Str.isDigit_of_mem_toString hmem) (by decide)
    have hsep : ":" = String.singleton ':' := rfl
    have hsplit : Str.rsplitOnceChar (host ++ (":" ++ toString p)) ':' = some (host, toString p) := by
      rw [hsep]
      exact Str.rsplitOnceChar_append host (toString p) hdigits
    rw [portText, hsplit]
    dsimp only
    rw [hcolon, if_neg (by decide), parsePort_toString text (hport p rfl)]
    rfl

theorem parseHost_hostText {host : String} {port : Option Nat} (text : String)
    (hhost : hostIsWellFormed host = true) (hport : ∀ p, port = some p → 1 ≤ p ∧ p ≤ 65535) :
    parseHost (hostText host ++ portText port) text = .ok (host, port) := by
  rw [hostIsWellFormed] at hhost
  rw [parseHost, hostText]
  cases hcolon : Str.contains host ":" with
  | true =>
    rw [hcolon, if_pos rfl] at hhost
    rw [if_pos rfl, String.append_assoc, String.append_assoc, Str.stripPrefix_append]
    exact parseBracketed_portText text hcolon hhost hport
  | false =>
    rw [hcolon, if_neg (by decide)] at hhost
    obtain ⟨c, rest, hc, -⟩ := component_head hhost
    have hstrip : Str.stripPrefix (host ++ portText port) "[" = none := by
      refine Str.stripPrefix_eq_none fun hpre => ?_
      have hbracket : "[".toList = ['['] := rfl
      rw [String.toList_append, hc, hbracket, List.cons_append] at hpre
      obtain ⟨rfl, -⟩ := List.cons_prefix_cons.mp hpre
      have hchar := componentChar hhost '[' (hc ▸ List.mem_cons_self)
      simp [isAsciiAlphanumeric, isAsciiAlphabetic, Str.isAsciiDigit] at hchar
    rw [if_neg (by decide), hstrip]
    exact parsePlain_portText text hcolon hport

theorem hostText_chars {host : String} (h : hostIsWellFormed host = true) :
    ∀ c ∈ (hostText host).toList, c ≠ '@' ∧ isDestChar c = true := by
  have hhost : ∀ c ∈ host.toList, c ≠ '@' ∧ isDestChar c = true := by
    intro c hc
    have hchar := hostChar h c hc
    constructor
    · rintro rfl
      simp [isAsciiAlphanumeric, isAsciiAlphabetic, Str.isAsciiDigit] at hchar
    · simp only [isDestChar, Bool.or_eq_true, decide_eq_true_eq, List.mem_cons]
      tauto
  intro c hc
  rw [hostText] at hc
  split at hc
  · have hbracket : c = '[' ∨ c ∈ host.toList ∨ c = ']' := by simpa using hc
    obtain rfl | hmem | rfl := hbracket
    · decide
    · exact hhost c hmem
    · decide
  · exact hhost c hc

theorem parse_render {spec : SshSpec} (h : spec.WellFormed) : parse spec.render = .ok spec := by
  obtain ⟨user, host, port⟩ := spec
  obtain ⟨huser, hhost, hport⟩ := h
  have hne : host ≠ "" := by
    rintro rfl
    cases hhost
  have hcheck : checkHost (render ⟨user, host, port⟩) user host port = .ok ⟨user, host, port⟩ := by
    rw [checkHost, if_neg hne, if_pos hhost]
  have hsplit : parseUser (render ⟨user, host, port⟩) = .ok (user, hostText host ++ portText port) := by
    cases user with
    | some user =>
      rw [render, dest, String.append_assoc, String.append_assoc]
      exact parseUser_some (huser user rfl) _
    | none =>
      have hrender : render ⟨none, host, port⟩ = hostText host ++ portText port := by
        rw [render, dest]
      rw [hrender]
      refine parseUser_none fun hmem => ?_
      rw [String.toList_append, List.mem_append] at hmem
      cases hmem with
      | inl hdest => exact absurd rfl (hostText_chars hhost '@' hdest).1
      | inr hdigits =>
        cases port with
        | none => cases hdigits
        | some port =>
          rw [portText, String.toList_append, List.mem_append] at hdigits
          cases hdigits with
          | inl hcolon => exact absurd hcolon (by decide)
          | inr hdigit => exact absurd (Str.isDigit_of_mem_toString hdigit) (by decide)
  rw [parse_eq]
  exact bind_eq_ok.mpr ⟨_, hsplit, bind_eq_ok.mpr ⟨_, parseHost_hostText _ hhost hport, hcheck⟩⟩

end Parsing

/-- The destination starts with no dash. -/
theorem WellFormed.dest_head {spec : SshSpec} (h : spec.WellFormed) :
    ∃ c rest, spec.dest.toList = c :: rest ∧ c ≠ '-' := by
  obtain ⟨user, host, port⟩ := spec
  rw [dest]
  cases user with
  | some user =>
    obtain ⟨c, rest, hc, hdash, -⟩ := component_head (h.user user rfl)
    exact ⟨c, rest ++ ("@" ++ hostText host).toList, by rw [String.toList_append, hc]; rfl, hdash⟩
  | none =>
    have hhost : hostIsWellFormed host = true := h.host
    rw [hostIsWellFormed] at hhost
    dsimp only
    rw [hostText]
    cases hcolon : Str.contains host ":" with
    | true => exact ⟨'[', (host ++ "]").toList, by simp, by decide⟩
    | false =>
      rw [hcolon, if_neg (by decide)] at hhost
      obtain ⟨c, rest, hc, hdash, -⟩ := component_head hhost
      exact ⟨c, rest, hc, hdash⟩

theorem WellFormed.dest_chars {spec : SshSpec} (h : spec.WellFormed) :
    ∀ c ∈ spec.dest.toList, isDestChar c = true := by
  obtain ⟨user, host, port⟩ := spec
  intro c hc
  rw [dest] at hc
  cases user with
  | none => exact (hostText_chars h.host c hc).2
  | some user =>
    have hsplit : c ∈ user.toList ∨ c = '@' ∨ c ∈ (hostText host).toList := by simpa using hc
    obtain huser | rfl | hhost := hsplit
    · have hchar := componentChar (h.user user rfl) c huser
      simp only [isDestChar, Bool.or_eq_true, decide_eq_true_eq, List.mem_cons]
      tauto
    · decide
    · exact (hostText_chars h.host c hhost).2

/-- A destination that is accepted is read back from what is written of it, and its arguments leave
`ssh` nothing to take for an option. -/
theorem parse_canonical {text : String} {spec : SshSpec} (h : parse text = .ok spec) :
    parse spec.render = .ok spec ∧
    (spec.toSshArgs = [spec.dest] ∨ ∃ port, 1 ≤ port ∧ port ≤ 65535 ∧
      spec.toSshArgs = ["-p", toString port, spec.dest]) ∧
    spec.dest ≠ "" ∧ spec.dest.toList.head? ≠ some '-' ∧
    ∀ c ∈ spec.dest.toList, Str.isWhitespace c = false ∧ isControl c = false := by
  have hformed := wellFormed_of_parse h
  obtain ⟨c, rest, hhead, hdash⟩ := hformed.dest_head
  refine ⟨parse_render hformed, ?_, fun hempty => ?_, fun hoption => ?_, fun d hd => ?_⟩
  · cases hport : spec.port with
    | none => exact .inl (by rw [toSshArgs, hport]; rfl)
    | some port =>
      obtain ⟨hpos, hmax⟩ := hformed.port port hport
      exact .inr ⟨port, hpos, hmax, by rw [toSshArgs, hport]; rfl⟩
  · rw [hempty] at hhead
    cases hhead
  · rw [hhead, List.head?_cons, Option.some_inj] at hoption
    exact hdash hoption
  · exact printable_of_isDestChar (hformed.dest_chars d hd)

/-- A literal address with a user and a port. -/
theorem parse_canonical_ipv6 :
    parse "deploy@[2001:db8::1]:2222" = .ok ⟨some "deploy", "2001:db8::1", some 2222⟩ ∧
      parse (render ⟨some "deploy", "2001:db8::1", some 2222⟩) =
        .ok ⟨some "deploy", "2001:db8::1", some 2222⟩ := by
  have hparse : parse "deploy@[2001:db8::1]:2222" =
      .ok ⟨some "deploy", "2001:db8::1", some 2222⟩ := by rfl
  exact ⟨hparse, (parse_canonical hparse).1⟩

end Shellflow.SshSpec
