import Shellflow.Executor.CheckBudget
import Shellflow.Executor.HelperWords
import Shellflow.Service.Sequential

/-! The references to captured variables in a check. A step resolves the path, the URL or the unit of
a check on the way to the target, and leaves its other texts as they are written. -/
namespace Shellflow.References
open Fallible
open Sequential (piecesOf refOr)

/-- The variable of a reference. -/
def pieceName : Sequential.Piece → Option String
  | .plain _ => none
  | .braced name => some (String.ofList name)
  | .bare name => some (String.ofList name)

/-- The variables that a text refers to. -/
def referencesOf (text : String) : List String := (piecesOf text.toList).filterMap pieceName

/-- The texts of a check that a step resolves. -/
def resolvedTexts : Assertion → List String
  | .enabled unit _ | .noLeak unit _ => [unit]
  | .rendered path | .digest path _ _ => [path]
  | .health url _ _ _ _ => [url]
  | _ => []

/-- The texts that a step sends as they are, from words the parser lets no reference into. -/
def wordTexts : Assertion → List String
  | .unitState unit _ => [unit]
  | .health _ expect method _ _ => expect ++ method.toList
  | .digest _ sha256 _ => sha256.toList
  | .credstore service => [service]
  | _ => []

/-- The texts that a step sends as they are, from any word of the playbook. -/
def literalTexts : Assertion → List String
  | .health _ _ _ body headers => body.toList ++ headers
  | .digest _ _ localPath => localPath.toList
  | _ => []

def textsOf (check : Assertion) : List String :=
  resolvedTexts check ++ wordTexts check ++ literalTexts check

section Ideal
variable {ε : Type} (f : String → Except ε String)

def mapOption : Option String → Except ε (Option String)
  | none => .ok none
  | some text => (f text).map some

/-- A check with each of its texts read anew. -/
def mapTexts : Assertion → Except ε Assertion
  | .unitState unit state => do
    let unit ← f unit
    .ok (.unitState unit state)
  | .enabled unit state => do
    let unit ← f unit
    .ok (.enabled unit state)
  | .health url expect method body headers => do
    let url ← f url
    let expect ← expect.mapM f
    let method ← mapOption f method
    let body ← mapOption f body
    let headers ← headers.mapM f
    .ok (.health url expect method body headers)
  | .port ports udp => .ok (.port ports udp)
  | .portFree ports => .ok (.portFree ports)
  | .rendered path => do
    let path ← f path
    .ok (.rendered path)
  | .noLeak unit lines => do
    let unit ← f unit
    .ok (.noLeak unit lines)
  | .digest path sha256 localPath => do
    let path ← f path
    let sha256 ← mapOption f sha256
    let localPath ← mapOption f localPath
    .ok (.digest path sha256 localPath)
  | .credstore service => do
    let service ← f service
    .ok (.credstore service)

end Ideal

section Claims
variable (vars : String → Option String)

def Unbound (text : String) : Prop := ∃ name ∈ referencesOf text, vars name = none

/-- What a step sends has every text interpolated, and it sends nothing exactly when a reference of
some text is unbound. -/
def Resolves (check : Assertion) : Prop :=
  (∀ out, interpolateCheck check vars = .ok out →
    mapTexts (fun text => interpolate text vars) check = .ok out) ∧
  ((∃ e, interpolateCheck check vars = .error e) ↔ ∃ text ∈ textsOf check, Unbound vars text)

end Claims

/-! The texts without references. -/

theorem dollar_notMem_of_all {s : List Char} {p : Char → Bool} (h : s.all p = true)
    (hp : p '$' = false) : '$' ∉ s := by
  intro hmem
  rw [List.all_eq_true] at h
  rw [h '$' hmem] at hp
  cases hp

theorem dollar_notMem_of_digits {radix acc n : Nat} {s : List Char}
    (h : Str.digitsValue radix acc s = some n) : '$' ∉ s := by
  induction s generalizing acc with
  | nil => exact List.not_mem_nil
  | cons c s ih =>
    rw [Str.digitsValue] at h
    split at h
    · next hdigit =>
      refine List.not_mem_cons_of_ne_of_not_mem ?_ (ih h)
      rintro rfl
      simp [Str.isAsciiDigit] at hdigit
    · cases h

theorem dollar_notMem_of_number {radix bound n : Nat} {s : List Char}
    (h : Str.parseUnsignedChars radix bound s = some n) : '$' ∉ s := by
  rw [Str.parseUnsignedChars] at h
  generalize hfront : (if s.head? = some '+' then s.drop 1 else s) = digits at h
  split at h
  · cases h
  · have hnot := dollar_notMem_of_digits (Option.filter_eq_some_iff.mp h).1
    split at hfront
    · next hplus =>
      obtain ⟨rest, rfl⟩ := List.head?_eq_some_iff.mp hplus
      subst hfront
      exact List.not_mem_cons_of_ne_of_not_mem (by decide) hnot
    · rw [hfront]
      exact hnot

theorem dollar_notMem_of_statusPattern {pattern : String} (h : isStatusPattern pattern = true) :
    '$' ∉ pattern.toList := by
  rw [isStatusPattern] at h
  split at h
  · next c hlist =>
    rw [hlist]
    split at h
    · simp only [List.mem_cons, List.not_mem_nil, or_false, not_or]
      refine ⟨?_, by decide, by decide⟩
      rintro rfl
      cases h
    · cases h
  · obtain ⟨code, hcode, -⟩ := Option.any_eq_true _ _ |>.mp h
    exact dollar_notMem_of_number hcode

section Parsed
variable {payload : String} {line : Nat} {target : Option String} {check : Assertion}

/-- A check whose words hold no reference. -/
def WordsPlain (check : Assertion) : Prop := ∀ text ∈ wordTexts check, '$' ∉ text.toList

theorem healthFlag_method {acc args : HealthArgs} {token value : String}
    (hacc : ∀ method, acc.method = some method → Str.all method isAsciiAlphabetic = true)
    (h : healthFlag line acc token value = .ok args) :
    ∀ method, args.method = some method → Str.all method isAsciiAlphabetic = true := by
  rw [healthFlag] at h
  split at h
  · obtain ⟨_, -, h⟩ := bind_eq_ok.mp h
    cases h
    exact hacc
  split at h
  · obtain ⟨_, hvalid, h⟩ := bind_eq_ok.mp h
    cases h
    intro method hmethod
    rw [← Option.some.inj hmethod]
    exact ensure_ok hvalid
  split at h
  · cases h
    exact hacc
  · obtain ⟨_, -, h⟩ := bind_eq_ok.mp h
    cases h
    exact hacc

theorem healthWord_method {acc args : HealthArgs} {token : String}
    (h : healthWord line acc token = .ok args) : args.method = acc.method := by
  rw [healthWord] at h
  split at h
  · cases h
  split at h
  · obtain ⟨_, -, h⟩ := bind_eq_ok.mp h
    cases h
    rfl
  · obtain ⟨_, -, h⟩ := bind_eq_ok.mp h
    cases h
    rfl

theorem wordsPlain_health (h : parseAssertHealth payload line = .ok (target, check)) :
    WordsPlain check := by
  obtain ⟨args, hargs, hrest⟩ := bind_eq_ok.mp h
  obtain ⟨url, -, hrest⟩ := bind_eq_ok.mp hrest
  obtain ⟨_, -, hrest⟩ := bind_eq_ok.mp hrest
  obtain ⟨_, -, hrest⟩ := bind_eq_ok.mp hrest
  cases hrest
  have hmethod := healthFrom_invariant
    (P := fun args => ∀ method, args.method = some method → Str.all method isAsciiAlphabetic = true)
    (fun _ _ _ _ => healthFlag_method)
    (fun acc args token hacc hword => by rw [healthWord_method hword]; exact hacc)
    (fun _ hnone => by cases hnone) hargs
  intro text htext
  rcases List.mem_append.mp htext with htext | htext
  · exact dollar_notMem_of_statusPattern (statusPatterns_of_parse h text htext)
  · exact dollar_notMem_of_all (hmethod text (Option.mem_toList.mp htext)) (by decide)

theorem digestFlag_sha256 {acc acc' : Option String × Option String} {flag : Flag}
    (hacc : ∀ hex, acc.1 = some hex → Str.all hex isAsciiHexdigit = true)
    (h : digestFlag line acc flag = .ok acc') :
    ∀ hex, acc'.1 = some hex → Str.all hex isAsciiHexdigit = true := by
  rw [digestFlag] at h
  split at h
  · obtain ⟨raw, -, h⟩ := bind_eq_ok.mp h
    obtain ⟨_, hvalid, h⟩ := bind_eq_ok.mp h
    cases h
    intro hex hhex
    rw [← Option.some.inj hhex]
    exact (Bool.and_eq_true_iff.mp (ensure_ok hvalid)).2
  split at h
  · obtain ⟨raw, -, h⟩ := bind_eq_ok.mp h
    cases h
    exact hacc
  · cases h

theorem wordsPlain_digest (h : parseAssertDigest payload line = .ok (target, check)) :
    WordsPlain check := by
  obtain ⟨⟨positional, flags⟩, -, h⟩ := bind_eq_ok.mp h
  obtain ⟨⟨sha256, localPath⟩, hflags, h⟩ := bind_eq_ok.mp h
  obtain ⟨path, -, h⟩ := bind_eq_ok.mp h
  obtain ⟨_, -, h⟩ := bind_eq_ok.mp h
  cases h
  have hsha := foldlM_invariant
    (fun acc : Option String × Option String =>
      ∀ hex, acc.1 = some hex → Str.all hex isAsciiHexdigit = true)
    (fun _ _ _ => digestFlag_sha256) (fun _ hnone => by cases hnone) hflags
  intro text htext
  exact dollar_notMem_of_all (hsha text (Option.mem_toList.mp htext)) (by decide)

theorem wordsPlain_of_declared (h : Declared check) : WordsPlain check := by
  obtain ⟨parse, payload, line, target, hlookup, h⟩ := parse_of_declared h
  cases check with
  | unitState unit state =>
    cases hlookup
    obtain ⟨_, -, h⟩ := bind_eq_ok.mp h
    obtain ⟨_, -, h⟩ := bind_eq_ok.mp h
    obtain ⟨unit', hunit, h⟩ := bind_eq_ok.mp h
    obtain ⟨_, -, h⟩ := bind_eq_ok.mp h
    cases h
    exact List.forall_mem_singleton.mpr (dollar_notMem_of_unit (HostStep.safeUnit_valid hunit))
  | credstore service =>
    cases hlookup
    obtain ⟨⟨_, _⟩, -, h⟩ := bind_eq_ok.mp h
    obtain ⟨_, -, h⟩ := bind_eq_ok.mp h
    obtain ⟨service', hservice, h⟩ := bind_eq_ok.mp h
    cases h
    exact List.forall_mem_singleton.mpr (dollar_notMem_of_unit (HostStep.safeService_valid hservice))
  | health url expect method body headers =>
    cases hlookup
    exact wordsPlain_health h
  | digest path sha256 localPath =>
    cases hlookup
    exact wordsPlain_digest h
  | enabled unit state | port ports udp | portFree ports | rendered path | noLeak unit lines =>
    exact fun _ hnone => absurd hnone List.not_mem_nil

end Parsed

/-! When `interpolate` fails, and when it changes nothing. -/

section Scan
variable {vars : String → Option String} {template : String}

theorem error_of_map {α β ε : Type} {x : Except ε α} {f : α → β} :
    (∃ e, x.map f = .error e) ↔ ∃ e, x = .error e := by
  cases x <;> simp [Except.map]

/-- Two texts, of which the second does not depend on the first. -/
theorem error_of_append {α ε : Type} {x y : Except ε (List α)} :
    (∃ e, (do let front ← x; let back ← y; .ok (front ++ back)) = .error e) ↔
      (∃ e, x = .error e) ∨ ∃ e, y = .error e := by
  cases x <;> cases y <;> simp [bind, Except.bind]

theorem referenceText_error_iff {name literal : List Char} {piece : List Char → Sequential.Piece}
    (hpiece : pieceName (piece name) = some (String.ofList name)) :
    (∃ e, referenceText vars template name literal = .error e) ↔
      ∃ variable', pieceName (refOr piece name literal) = some variable' ∧ vars variable' = none := by
  rw [referenceText, refOr]
  split
  · rw [hpiece]
    cases hbinding : vars (String.ofList name) with
    | none => simp [hbinding]
    | some value => simp [hbinding]
  · simp [pieceName]

theorem unbound_cons {piece : Sequential.Piece} {l : List Sequential.Piece} :
    (∃ name ∈ (piece :: l).filterMap pieceName, vars name = none) ↔
      (∃ name, pieceName piece = some name ∧ vars name = none) ∨
        ∃ name ∈ l.filterMap pieceName, vars name = none := by
  cases hname : pieceName piece with
  | none => simp [List.filterMap_cons_none hname]
  | some name => simp [List.filterMap_cons_some hname]

/-- The scan fails exactly at a reference without a value. -/
theorem interpolateFrom_error_iff {s : List Char} :
    (∃ e, interpolateFrom vars template s = .error e) ↔
      ∃ name ∈ (piecesOf s).filterMap pieceName, vars name = none := by
  induction s using interpolateFrom.induct with
  | case1 =>
    rw [interpolateFrom, piecesOf]
    simp
  | case2 rest hclosed ih =>
    obtain ⟨name, tail, rfl, hbrace⟩ := List.eq_append_cons_of_mem hclosed
    rw [Substitution.dropWhile_braced hbrace, List.tail_cons] at ih
    rw [interpolateFrom, if_pos hclosed, Substitution.takeWhile_braced hbrace,
      Substitution.dropWhile_braced hbrace, List.tail_cons, error_of_append,
      Sequential.piecesOf_braced hbrace, unbound_cons]
    exact or_congr (referenceText_error_iff rfl) ih
  | case3 rest hopen =>
    rw [interpolateFrom, if_neg hopen, Sequential.piecesOf_open hopen]
    simp [pieceName]
  | case4 rest hbrace ih =>
    rw [interpolateFrom.eq_3 _ _ _ hbrace, error_of_append, piecesOf.eq_3 _ hbrace, unbound_cons]
    exact or_congr (referenceText_error_iff rfl) ih
  | case5 c rest hbrace hc ih =>
    rw [interpolateFrom.eq_4 _ _ _ _ hbrace hc, piecesOf.eq_4 _ _ hbrace hc, unbound_cons]
    refine Iff.trans ?_ (ih.trans (or_iff_right ?_).symm)
    · cases interpolateFrom vars template rest <;> simp [bind, Except.bind]
    · simp [pieceName]

theorem interpolate_error_iff {text : String} :
    (∃ e, interpolate text vars = .error e) ↔ Unbound vars text := by
  rw [interpolate, error_of_map, interpolateFrom_error_iff, Unbound, referencesOf]

theorem flatMap_read_of_plain {l : List Sequential.Piece} (h : l.filterMap pieceName = []) :
    l.flatMap (Sequential.Piece.read vars vars) =
      l.flatMap (Sequential.Piece.read (fun _ => none) fun _ => none) := by
  refine List.flatMap_congr fun piece hpiece => ?_
  have hname := List.filterMap_eq_nil_iff.mp h piece hpiece
  cases piece with
  | plain text => rfl
  | braced name => cases hname
  | bare name => cases hname

/-- A text without references is its own interpolation. -/
theorem interpolate_of_plain {text : String} (h : referencesOf text = []) :
    interpolate text vars = .ok text := by
  cases hok : interpolate text vars with
  | error e =>
    obtain ⟨name, hname, -⟩ := interpolate_error_iff.mp ⟨e, hok⟩
    rw [h] at hname
    cases hname
  | ok out =>
    obtain ⟨chars, hchars, rfl⟩ := map_eq_ok.mp hok
    rw [← Sequential.interpolateFrom_pieces vars hchars, flatMap_read_of_plain h,
      Sequential.flatMap_read_none, String.ofList_toList]

/-- References that stand for nothing shorten the text. -/
theorem length_flatMap_read_empty (l : List Sequential.Piece) :
    (l.flatMap (Sequential.Piece.read (fun _ => some "") fun _ => some "")).length +
        (l.filterMap pieceName).length ≤
      (l.flatMap (Sequential.Piece.read (fun _ => none) fun _ => none)).length := by
  induction l with
  | nil => exact le_rfl
  | cons piece l ih =>
    cases piece with
    | plain text =>
      simp only [List.flatMap_cons, List.length_append, Sequential.Piece.read,
        List.filterMap_cons_none (rfl : pieceName (.plain text) = none)]
      omega
    | braced name =>
      simp only [List.flatMap_cons, List.length_append, Sequential.Piece.read, List.length_cons,
        List.filterMap_cons_some (rfl : pieceName (.braced name) = some (String.ofList name)),
        String.toList_empty, List.length_nil]
      omega
    | bare name =>
      simp only [List.flatMap_cons, List.length_append, Sequential.Piece.read, List.length_cons,
        List.filterMap_cons_some (rfl : pieceName (.bare name) = some (String.ofList name)),
        String.toList_empty, List.length_nil]
      omega

theorem referencesOf_of_unchanged {text : String}
    (h : interpolate text (fun _ => some "") = .ok text) : referencesOf text = [] := by
  obtain ⟨chars, hchars, htext⟩ := map_eq_ok.mp h
  have hread := Sequential.interpolateFrom_pieces _ hchars
  have hlen := length_flatMap_read_empty (piecesOf text.toList)
  have hsame : text.toList = chars := by rw [← htext, String.toList_ofList]
  rw [hread, Sequential.flatMap_read_none, hsame] at hlen
  rw [referencesOf, hsame]
  exact List.length_eq_zero_iff.mp (by omega)

end Scan

section Texts
variable {ε : Type} {f : String → Except ε String}

theorem mapM_eq_self_iff {l : List String} : l.mapM f = .ok l ↔ ∀ text ∈ l, f text = .ok text := by
  induction l with
  | nil => exact iff_of_true rfl fun _ hnone => absurd hnone List.not_mem_nil
  | cons text l ih =>
    rw [List.mapM_cons, List.forall_mem_cons, ← ih]
    constructor
    · intro h
      obtain ⟨first, hfirst, h⟩ := bind_eq_ok.mp h
      obtain ⟨rest, hrest, h⟩ := bind_eq_ok.mp h
      cases h
      exact ⟨hfirst, hrest⟩
    · intro h
      rw [h.1, h.2]
      rfl

theorem mapOption_eq_self_iff {o : Option String} :
    mapOption f o = .ok o ↔ ∀ text ∈ o.toList, f text = .ok text := by
  cases o with
  | none => exact iff_of_true rfl fun _ hnone => absurd hnone List.not_mem_nil
  | some text =>
    rw [Option.toList_some, List.forall_mem_singleton, mapOption]
    cases f text <;> simp [Except.map]

variable {vars : String → Option String} {check out : Assertion}

/-- The check that is sent has all its texts resolved when the others are as they should be. -/
theorem mapTexts_iff (h : interpolateCheck check vars = .ok out) :
    mapTexts (fun text => interpolate text vars) check = .ok out ↔
      ∀ text ∈ wordTexts check ++ literalTexts check, interpolate text vars = .ok text := by
  have hnone : ∀ {P : Prop}, P → (P ↔ ∀ text ∈ ([] : List String) ++ [],
      interpolate text vars = .ok text) :=
    fun hP => iff_of_true hP fun _ hmem => absurd hmem List.not_mem_nil
  have hone : ∀ {P : Prop} {word : String}, (P ↔ interpolate word vars = .ok word) →
      (P ↔ ∀ text ∈ [word] ++ [], interpolate text vars = .ok text) := by
    intro P word hP
    rw [List.append_nil, List.forall_mem_singleton]
    exact hP
  cases check with
  | unitState unit state =>
    cases h
    exact hone (by rw [mapTexts, bind_eq_ok]; simp)
  | credstore service =>
    cases h
    exact hone (by rw [mapTexts, bind_eq_ok]; simp)
  | port ports udp | portFree ports =>
    cases h
    exact hnone rfl
  | enabled unit state | rendered path | noLeak unit lines =>
    obtain ⟨text, htext, rfl⟩ := map_eq_ok.mp h
    exact hnone (bind_eq_ok.mpr ⟨text, htext, rfl⟩)
  | health url expect method body headers =>
    obtain ⟨text, htext, rfl⟩ := map_eq_ok.mp h
    rw [mapTexts, wordTexts, literalTexts, htext, List.forall_mem_append, List.forall_mem_append,
      List.forall_mem_append, ← @mapOption_eq_self_iff _ _ method, ← @mapOption_eq_self_iff _ _ body,
      ← mapM_eq_self_iff, ← mapM_eq_self_iff]
    constructor
    · intro h
      obtain ⟨_, hurl, h⟩ := bind_eq_ok.mp h
      obtain ⟨_, hexpect, h⟩ := bind_eq_ok.mp h
      obtain ⟨_, hmethod, h⟩ := bind_eq_ok.mp h
      obtain ⟨_, hbody, h⟩ := bind_eq_ok.mp h
      obtain ⟨_, hheaders, h⟩ := bind_eq_ok.mp h
      cases h
      exact ⟨⟨hexpect, hmethod⟩, hbody, hheaders⟩
    · intro h
      obtain ⟨⟨hexpect, hmethod⟩, hbody, hheaders⟩ := h
      rw [hexpect, hmethod, hbody, hheaders]
      rfl
  | digest path sha256 localPath =>
    obtain ⟨text, htext, rfl⟩ := map_eq_ok.mp h
    rw [mapTexts, wordTexts, literalTexts, htext, List.forall_mem_append, ← mapOption_eq_self_iff,
      ← mapOption_eq_self_iff]
    constructor
    · intro h
      obtain ⟨_, hpath, h⟩ := bind_eq_ok.mp h
      obtain ⟨_, hsha, h⟩ := bind_eq_ok.mp h
      obtain ⟨_, hlocal, h⟩ := bind_eq_ok.mp h
      cases h
      exact ⟨hsha, hlocal⟩
    · intro h
      rw [h.1, h.2]
      rfl

/-- A step stops at the texts it resolves, and at no others. -/
theorem interpolateCheck_error_iff : (∃ e, interpolateCheck check vars = .error e) ↔
    ∃ text ∈ resolvedTexts check, Unbound vars text := by
  have hone : ∀ {f : String → Assertion} {text : String},
      (∃ e, (interpolate text vars).map f = .error e) ↔ ∃ t ∈ [text], Unbound vars t := by
    intro f text
    rw [error_of_map, interpolate_error_iff]
    simp
  cases check with
  | unitState unit state | port ports udp | portFree ports | credstore service =>
    refine iff_of_false ?_ ?_
    · rintro ⟨e, h⟩
      cases h
    · rintro ⟨text, h, -⟩
      cases h
  | enabled unit state | rendered path | noLeak unit lines | digest path sha256 localPath
    | health url expect method body headers => exact hone

end Texts

section Resolved
variable {check : Assertion}

/-- In one run state: a reference that stops the step, or texts that mean themselves. -/
theorem resolves_iff (hwords : WordsPlain check) (vars : String → Option String) :
    Resolves vars check ↔ (∃ text ∈ resolvedTexts check, Unbound vars text) ∨
      ∀ text ∈ literalTexts check, interpolate text vars = .ok text := by
  have hword : ∀ text ∈ wordTexts check, interpolate text vars = .ok text :=
    fun text htext => interpolate_of_noDollar vars (hwords text htext)
  rw [Resolves, interpolateCheck_error_iff]
  cases hcheck : interpolateCheck check vars with
  | error e =>
    obtain ⟨text, htext, hunbound⟩ := interpolateCheck_error_iff.mp ⟨e, hcheck⟩
    refine iff_of_true ⟨by rintro _ ⟨⟩, iff_of_true ⟨text, htext, hunbound⟩ ?_⟩
      (Or.inl ⟨text, htext, hunbound⟩)
    exact ⟨text, List.mem_append_left _ (List.mem_append_left _ htext), hunbound⟩
  | ok out =>
    have hbound : ¬ ∃ text ∈ resolvedTexts check, Unbound vars text := by
      rw [← interpolateCheck_error_iff, hcheck]
      rintro ⟨e, h⟩
      cases h
    rw [or_iff_right hbound]
    constructor
    · intro h text htext
      exact (mapTexts_iff hcheck).mp (h.1 out rfl) text (List.mem_append_right _ htext)
    · intro hliteral
      have hall : ∀ text ∈ wordTexts check ++ literalTexts check,
          interpolate text vars = .ok text :=
        List.forall_mem_append.mpr ⟨hword, hliteral⟩
      refine ⟨fun out' h => ?_, iff_of_false hbound ?_⟩
      · cases h
        exact (mapTexts_iff hcheck).mpr hall
      · rintro ⟨text, htext, hunbound⟩
        rw [textsOf, List.append_assoc] at htext
        rcases List.mem_append.mp htext with htext | htext
        · exact hbound ⟨text, htext, hunbound⟩
        · obtain ⟨e, he⟩ := interpolate_error_iff.mpr hunbound
          rw [hall text htext] at he
          cases he

/-- A check that some directive declares has all its references resolved, in every run state, unless
it refers to a variable where a step does not look. -/
theorem resolves_every_reference_iff (check : Assertion) (h : Declared check) :
    (∀ vars, Resolves vars check ↔ (∃ text ∈ resolvedTexts check, Unbound vars text) ∨
      ∀ text ∈ literalTexts check, interpolate text vars = .ok text) ∧
    ((∀ vars, Resolves vars check) ↔ ∀ text ∈ literalTexts check, referencesOf text = []) := by
  have hiff := resolves_iff (wordsPlain_of_declared h)
  refine ⟨hiff, ?_⟩
  constructor
  · intro hall text htext
    rcases (hiff _).mp (hall fun _ => some "") with ⟨_, -, _, -, hunbound⟩ | hliteral
    · cases hunbound
    · exact referencesOf_of_unchanged (hliteral text htext)
  · intro hplain vars
    exact (hiff vars).mpr (Or.inr fun text htext => interpolate_of_plain (hplain text htext))

/-- The reference copy of a service's file, by the name of the service. -/
def localCopy : Assertion := .digest "/etc/x" none (some "/srv/$SVC/x")

theorem declared_localCopy : Declared localCopy := by
  refine ⟨("assert_digest", parseAssertDigest), ?_, "/etc/x --local /srv/$SVC/x", 1, none,
    by decide⟩
  simp [State.assertionParsers]

theorem resolves_localCopy_iff :
    (∀ vars, Resolves vars localCopy ↔ (∃ text ∈ resolvedTexts localCopy, Unbound vars text) ∨
      ∀ text ∈ literalTexts localCopy, interpolate text vars = .ok text) ∧
    ((∀ vars, Resolves vars localCopy) ↔ ∀ text ∈ literalTexts localCopy, referencesOf text = []) :=
  resolves_every_reference_iff localCopy declared_localCopy

/-- The target is asked for `/srv/$SVC/x`, where the run has a name for the service. -/
theorem local_copy_sent_unresolved :
    ¬ ∀ check, Declared check → ∀ vars : String → Option String, Resolves vars check := by
  intro hall
  have hout : interpolateCheck localCopy (fun _ => some "app") = .ok localCopy := by decide +kernel
  have htexts : mapTexts (fun text => interpolate text fun _ => some "app") localCopy =
      .ok (.digest "/etc/x" none (some "/srv/app/x")) := by
    decide +kernel
  have hsame := (hall localCopy declared_localCopy fun _ => some "app").1 localCopy hout
  rw [htexts] at hsame
  exact absurd (Except.ok.inj hsame) (by decide +kernel)

end Resolved

end Shellflow.References
