import Shellflow.Dsl.Conserve
import Shellflow.Dsl.Located

/-! The body of a here-document is data: its lines go to the block as they stand, in the order of
the openers, and only a body that never ends makes the parser complain about it. -/
namespace Shellflow
open Fallible State

/-- Each here-document is read behind its own operator, and the next one behind it. -/
inductive InOrder : List Char → List Heredoc → Prop
  | nil (line : List Char) : InOrder line []
  | cons (before word after : List Char) (h : Heredoc) (hs : List Heredoc)
      (hread : readHeredoc (word ++ after) = some (h, after)) (hrest : InOrder after hs) :
      InOrder (before ++ '<' :: '<' :: (word ++ after)) (h :: hs)

/-- The lines that the bodies take up, one here-document after the other. -/
inductive Bodies : List Heredoc → List (List Char) → Prop
  | nil : Bodies [] []
  | cons (h : Heredoc) (hs : List Heredoc) (body : List (List Char)) (last : List Char)
      (rest : List (List Char)) (hbody : ∀ line ∈ body, h.terminates line = false)
      (hlast : h.terminates last = true) (hrest : Bodies hs rest) :
      Bodies (h :: hs) (body ++ last :: rest)

/-- What a line leaves open, whatever its directive says. -/
def HeredocTracker.track (t : HeredocTracker) (numbered : List Char × Nat) : HeredocTracker :=
  let line := stripCr numbered.1
  let body := t.consumeBody line
  if body.2 then body.1
  else if (directive line).isSome then t
  else t.openIn line numbered.2

section Openers
variable {line rest : List Char}

theorem closingQuote_suffix (quote : Char) (escapes : Bool) :
    (closingQuote quote escapes rest).2 <:+ rest := by
  fun_induction closingQuote quote escapes rest with
  | case1 => exact List.suffix_refl []
  | case2 => exact List.nil_suffix
  | case3 c => exact List.nil_suffix
  | case4 c d rest _ body after heq ih =>
    rw [heq] at ih
    exact (ih.trans (List.suffix_cons d rest)).trans (List.suffix_cons c _)
  | case5 d rest => exact List.suffix_cons quote _
  | case6 c d rest _ _ body after heq ih =>
    rw [heq] at ih
    exact ih.trans (List.suffix_cons c _)

theorem bareTag_suffix : (bareTag rest).2.1 <:+ rest := by
  fun_induction bareTag rest with
  | case1 => exact List.suffix_refl []
  | case2 c => exact List.suffix_refl [c]
  | case3 c => exact List.nil_suffix
  | case4 c d rest => exact List.suffix_refl _
  | case5 c d rest _ _ tag after literal heq ih =>
    rw [heq] at ih
    exact (ih.trans (List.suffix_cons d rest)).trans (List.suffix_cons c _)
  | case6 c d rest _ _ tag after literal heq ih =>
    rw [heq] at ih
    exact ih.trans (List.suffix_cons c _)

theorem readTag_suffix : (readTag rest).2.1 <:+ rest := by
  unfold readTag
  split
  · exact bareTag_suffix
  next quote body =>
    split
    · exact (closingQuote_suffix quote (quote == '"')).trans (List.suffix_cons quote body)
    · exact bareTag_suffix

theorem readHeredoc_suffix {h : Heredoc} {after : List Char}
    (hread : readHeredoc rest = some (h, after)) : after <:+ rest := by
  have hdash : (if rest.head? == some '-' then rest.drop 1 else rest) <:+ rest := by
    split
    · exact List.drop_suffix 1 rest
    · exact List.suffix_refl rest
  have htag := readTag_suffix.trans ((List.dropWhile_suffix fun c => c == ' ' || c == '\t').trans hdash)
  simp only [readHeredoc, Option.ite_none_left_eq_some, Option.some.injEq, Prod.mk.injEq] at hread
  rw [← hread.2.2]
  exact htag

theorem InOrder.append_left {hs : List Heredoc} (h : InOrder line hs) (front : List Char) :
    InOrder (front ++ line) hs := by
  cases h with
  | nil => exact .nil _
  | cons before word after h hs hread hrest =>
    rw [← List.append_assoc]
    exact .cons (front ++ before) word after h hs hread hrest

theorem InOrder.behind {hs : List Heredoc} (h : InOrder rest hs) (hsuffix : rest <:+ line)
    (c : Char) : InOrder (c :: line) hs := by
  obtain ⟨front, rfl⟩ := hsuffix
  exact h.append_left (c :: front)

theorem scanOpenersFrom_inOrder (fuel : Nat) (wordStart : Bool) (line : List Char) :
    InOrder line (scanOpenersFrom fuel wordStart line) := by
  fun_induction scanOpenersFrom fuel wordStart line with
  | case1 => exact .nil _
  | case2 => exact .nil _
  | case3 fuel wordStart rest ih => exact ih.behind (List.drop_suffix 1 rest) _
  | case4 fuel wordStart quote rest _ _ ih =>
    exact ih.behind (closingQuote_suffix quote (quote == '"')) quote
  | case5 => exact .nil _
  | case6 fuel wordStart c rest _ _ _ _ _ ih => exact ih.behind (List.drop_suffix 2 rest) c
  | case7 fuel wordStart c rest _ _ _ hopen _ h after hread ih =>
    simp only [Bool.and_eq_true, decide_eq_true_eq] at hopen
    obtain ⟨tail, rfl⟩ := List.head?_eq_some_iff.mp hopen.2
    obtain ⟨word, rfl⟩ := readHeredoc_suffix hread
    rw [hopen.1]
    exact .cons [] word after h _ hread ih
  | case8 fuel wordStart c rest _ _ _ _ _ _ ih => exact ih.behind (List.drop_suffix 1 rest) c
  | case9 fuel wordStart c rest _ _ _ _ ih => exact ih.behind (List.suffix_refl rest) c

/-- The openers of a line are found in the order they have there. -/
theorem scanOpeners_inOrder (line : List Char) : InOrder line (scanOpeners line) :=
  scanOpenersFrom_inOrder (line.length + 1) true line

end Openers

namespace State
variable {st : State} {numbered : List Char × Nat}

/-- The lines join the block, and nothing but the open here-documents changes with it. -/
def absorb (st : State) (heredocs : HeredocTracker) (lines : List (List Char)) : State :=
  { st with heredocs := heredocs, pending := st.pending ++ lines }

@[simp] theorem absorb_absorb (st : State) (t u : HeredocTracker) (lines more : List (List Char)) :
    (st.absorb t lines).absorb u more = st.absorb u (lines ++ more) := by
  simp [absorb]

theorem absorb_nil (st : State) : st.absorb st.heredocs [] = st := by
  simp [absorb]

/-- A line of an open body. -/
theorem scanLine_body (hopen : st.heredocs.opened ≠ []) :
    st.scanLine numbered = .ok (st.absorb (st.heredocs.consumeBody (stripCr numbered.1)).1
      [stripCr numbered.1]) := by
  have hbody : (st.heredocs.consumeBody (stripCr numbered.1)).2 = true := by
    unfold HeredocTracker.consumeBody
    split
    next hnil => exact absurd hnil hopen
    next => split <;> rfl
  unfold scanLine
  rw [if_pos hbody]
  rfl

/-- A line of the script that is no directive. -/
theorem scanLine_text (hopen : st.heredocs.opened = [])
    (htext : directive (stripCr numbered.1) = none) :
    st.scanLine numbered = .ok (st.absorb
      ⟨(scanOpeners (stripCr numbered.1)).map fun h => (numbered.2, h)⟩
      [stripCr numbered.1]) := by
  simp [scanLine, HeredocTracker.consumeBody, HeredocTracker.openIn, hopen, htext, absorb]

section Body
variable {n : Nat} {h : Heredoc} {later : List (Nat × Heredoc)}

theorem scanLine_not_last (hopen : st.heredocs = ⟨(n, h) :: later⟩)
    (hline : h.terminates (stripCr numbered.1) = false) :
    st.scanLine numbered = .ok (st.absorb st.heredocs [stripCr numbered.1]) := by
  rw [scanLine_body (by simp [hopen])]
  simp [HeredocTracker.consumeBody, hopen, hline]

theorem scanLine_last (hopen : st.heredocs = ⟨(n, h) :: later⟩)
    (hline : h.terminates (stripCr numbered.1) = true) :
    st.scanLine numbered = .ok (st.absorb ⟨later⟩ [stripCr numbered.1]) := by
  rw [scanLine_body (by simp [hopen])]
  simp [HeredocTracker.consumeBody, hopen, hline]

/-- The lines in front of the terminator join the block, and the body stays open. -/
theorem run_body {lines : List (List Char × Nat)} (hopen : st.heredocs = ⟨(n, h) :: later⟩)
    (hlines : ∀ l ∈ lines, h.terminates (stripCr l.1) = false) :
    lines.foldlM scanLine st =
      .ok (st.absorb st.heredocs (lines.map fun l => stripCr l.1)) := by
  induction lines generalizing st with
  | nil => exact congrArg Except.ok st.absorb_nil.symm
  | cons l lines ih =>
    have hl := scanLine_not_last hopen (hlines l List.mem_cons_self)
    have hrest := @ih (st.absorb st.heredocs [stripCr l.1]) hopen
      fun l' hl' => hlines l' (List.mem_cons_of_mem l hl')
    rw [absorb_absorb] at hrest
    rw [List.foldlM_cons, hl]
    exact hrest

end Body

/-- The lines of the bodies join the block, and what was opened behind them is still open. -/
theorem run_bodies {opened later : List (Nat × Heredoc)} {lines : List (List Char × Nat)}
    (hbodies : Bodies (opened.map Prod.snd) (lines.map fun l => stripCr l.1))
    (hopen : st.heredocs = ⟨opened ++ later⟩) :
    lines.foldlM scanLine st =
      .ok (st.absorb ⟨later⟩ (lines.map fun l => stripCr l.1)) := by
  generalize htags : opened.map Prod.snd = tags at hbodies
  generalize htext : (lines.map fun l => stripCr l.1) = text at hbodies
  induction hbodies generalizing st opened lines with
  | nil =>
    rw [List.map_eq_nil_iff] at htags htext
    subst htags htext
    rw [List.nil_append] at hopen
    rw [← hopen, absorb_nil]
    rfl
  | cons h hs body last rest hbody hlast _ ih =>
    obtain ⟨⟨n, _⟩, opened, rfl, rfl, rfl⟩ := List.map_eq_cons_iff.mp htags
    obtain ⟨before, after, rfl, rfl, hafter⟩ := List.map_eq_append_iff.mp htext
    obtain ⟨l, lines, rfl, rfl, rfl⟩ := List.map_eq_cons_iff.mp hafter
    rw [List.forall_mem_map] at hbody
    have hbefore := run_body hopen hbody
    have hl := @scanLine_last (st.absorb st.heredocs (before.map fun l => stripCr l.1)) l n _
      (opened ++ later) hopen hlast
    have hrest := @ih (st.absorb ⟨opened ++ later⟩
      ((before.map fun l => stripCr l.1) ++ [stripCr l.1])) _ _ rfl rfl rfl
    rw [absorb_absorb] at hl hrest
    rw [List.foldlM_append, hbefore]
    simp only [bind, Except.bind, List.foldlM_cons, hl]
    rw [hrest, List.append_assoc, List.singleton_append]

/-- The scanner and the lexical reading of the lines have the same here-documents open. -/
theorem heredocs_scanLine {st' : State} (h : st.scanLine numbered = .ok st') :
    st'.heredocs = st.heredocs.track numbered := by
  cases effect_scanLine h with
  | body hbody => simp [HeredocTracker.track, hbody]
  | text hbody hdir => simp [HeredocTracker.track, hbody, hdir]
  | directive hbody hdir heffect =>
    rw [heffect.sameBlocks.heredocs]
    have hbefore : ∀ keyword, (st.beforeDirective keyword).heredocs = st.heredocs := by
      intro keyword
      unfold beforeDirective
      split
      · rfl
      · exact flush_heredocs st
    simp [HeredocTracker.track, hbody, hdir, hbefore]

theorem heredocs_run {st' : State} {lines : List (List Char × Nat)}
    (h : lines.foldlM scanLine st = .ok st') :
    st'.heredocs = lines.foldl HeredocTracker.track st.heredocs := by
  induction lines generalizing st with
  | nil =>
    cases h
    rfl
  | cons l lines ih =>
    obtain ⟨mid, hmid, hrest⟩ := bind_eq_ok.mp h
    rw [ih hrest, heredocs_scanLine hmid, List.foldl_cons]

end State

/-- An error that is not about an open body. -/
def NotOpen : ParseError → Prop
  | .unterminatedHeredoc _ _ => False
  | _ => True

theorem NotOpen.of_located {line : Nat} {e : ParseError} (h : Located line e) : NotOpen e := by
  cases e with
  | unterminatedHeredoc l d => exact h
  | _ => trivial

theorem notOpen_run (lines : List (List Char × Nat)) (st : State) :
    Raises NotOpen (lines.foldlM scanLine st) :=
  raises_foldlM (fun _ _ e he => .of_located (located_scanLine e he)) lines st

theorem notOpen_unknownMember {st : State} {e : ParseError} (h : st.unknownMember = some e) :
    NotOpen e := by
  obtain ⟨group, -, hmember⟩ := List.exists_of_findSome?_eq_some h
  obtain ⟨member, -, rfl⟩ := Option.map_eq_some_iff.mp hmember
  trivial

/-- The end of the script complains about the body that was opened first. -/
theorem finish_unterminated {st : State} {n : Nat} {tag : String} :
    st.finish = .error (.unterminatedHeredoc n tag) ↔
      ∃ h, st.heredocs.opened.head? = some (n, h) ∧ tag = String.ofList h.tag := by
  unfold finish HeredocTracker.unterminated
  cases hopen : st.heredocs.opened.head? with
  | some opened =>
    obtain ⟨line, h⟩ := opened
    constructor
    · intro herr
      cases herr
      exact ⟨h, rfl, rfl⟩
    · rintro ⟨_, hhead, rfl⟩
      cases hhead
      rfl
  | none =>
    cases hmember : st.flush.unknownMember with
    | none => simp
    | some e =>
      have hnot := notOpen_unknownMember hmember
      constructor
      · intro herr
        cases herr
        exact hnot.elim
      · rintro ⟨_, hhead, -⟩
        cases hhead

theorem parseScript_unterminated (input : String) (n : Nat) (tag : String) :
    parseScript input = .error (.unterminatedHeredoc n tag) ↔
      (∃ st, (numberedLines input).foldlM scanLine .new = .ok st) ∧
        ∃ h, ((numberedLines input).foldl HeredocTracker.track ⟨[]⟩).opened.head? = some (n, h) ∧
          tag = String.ofList h.tag := by
  unfold parseScript
  cases hrun : (numberedLines input).foldlM scanLine .new with
  | error e =>
    have hnot := notOpen_run (numberedLines input) .new e hrun
    constructor
    · intro herr
      cases herr
      exact hnot.elim
    · rintro ⟨⟨st, hst⟩, -⟩
      cases hst
  | ok st =>
    have hopen : st.heredocs = (numberedLines input).foldl HeredocTracker.track ⟨[]⟩ :=
      heredocs_run hrun
    rw [← hopen]
    refine finish_unterminated.trans ?_
    simp

/-- The body of a here-document goes to the block line by line and is never a directive, several
bodies in the order of their openers; a carriage return at the end of a line is dropped. The parser
complains about an open body when it accepts every directive and some body is open at the end. -/
theorem bodies_are_data (input : String) :
    (∀ before l after st, numberedLines input = before ++ l :: after →
      before.foldlM scanLine .new = .ok st →
        (st.heredocs.opened ≠ [] →
          st.scanLine l = .ok (st.absorb (st.heredocs.consumeBody (stripCr l.1)).1
            [stripCr l.1])) ∧
        (st.heredocs.opened = [] → directive (stripCr l.1) = none →
          InOrder (stripCr l.1) (scanOpeners (stripCr l.1)) ∧
          ∀ opened later bodies rest, scanOpeners (stripCr l.1) = opened ++ later →
            after = bodies ++ rest → Bodies opened (bodies.map fun b => stripCr b.1) →
              (l :: bodies).foldlM scanLine st = .ok (st.absorb
                ⟨later.map fun h => (l.2, h)⟩ ((l :: bodies).map fun b => stripCr b.1)))) ∧
      ∀ n tag, parseScript input = .error (.unterminatedHeredoc n tag) ↔
        (∃ st, (numberedLines input).foldlM scanLine .new = .ok st) ∧
          ∃ h, ((numberedLines input).foldl HeredocTracker.track ⟨[]⟩).opened.head? =
            some (n, h) ∧ tag = String.ofList h.tag := by
  refine ⟨?_, parseScript_unterminated input⟩
  intro before l after st _ _
  refine ⟨scanLine_body, ?_⟩
  intro hopen htext
  refine ⟨scanOpeners_inOrder _, ?_⟩
  intro opened later bodies rest hopeners _ hbodies
  have hl := scanLine_text hopen htext
  rw [hopeners, List.map_append] at hl
  have hrest := @run_bodies (st.absorb
    ⟨(opened.map fun h => (l.2, h)) ++ later.map fun h => (l.2, h)⟩ [stripCr l.1])
    (opened.map fun h => (l.2, h)) _ bodies
    (by simpa [Function.comp_def] using hbodies) rfl
  rw [absorb_absorb] at hrest
  rw [List.foldlM_cons, hl]
  exact hrest

/-- Two openers on a line, and a body line that looks like a directive. -/
def twoBodies : String := "cat <<A <<-B\n# @remote web\nA\n\tB\n"

theorem bodies_are_data_two :
    (numberedLines twoBodies).foldlM scanLine .new = .ok (State.new.absorb ⟨[]⟩
      ["cat <<A <<-B".toList, "# @remote web".toList, "A".toList, "\tB".toList]) := by
  have hlines : numberedLines twoBodies = ("cat <<A <<-B".toList, 1) ::
      [("# @remote web".toList, 2), ("A".toList, 3), ("\tB".toList, 4)] := by
    decide +kernel
  have htwo : Bodies [⟨['A'], false⟩, ⟨['B'], true⟩]
      ["# @remote web".toList, "A".toList, "\tB".toList] :=
    .cons _ _ ["# @remote web".toList] "A".toList _ (by decide) (by decide)
      (.cons _ _ [] "\tB".toList [] (by decide) (by decide) .nil)
  have hdata := ((bodies_are_data twoBodies).1 [] _ _ .new hlines rfl).2 rfl (by decide +kernel)
  rw [hlines]
  exact hdata.2 [⟨['A'], false⟩, ⟨['B'], true⟩] [] _ [] (by decide +kernel) rfl htwo

/-- An unknown directive, and a body that never ends. -/
def rejectedScript : String := "# @frobnicate x\ncat <<EOF\n"

/-- A body line loses a carriage return, and an open body goes unreported behind a directive that
is rejected. -/
theorem bodies_not_verbatim :
    (¬ ∀ input before l after st, numberedLines input = before ++ l :: after →
      before.foldlM scanLine .new = .ok st → st.heredocs.opened ≠ [] →
        st.scanLine l = .ok (st.absorb (st.heredocs.consumeBody l.1).1 [l.1])) ∧
    ¬ ∀ input, (∃ n tag, parseScript input = .error (.unterminatedHeredoc n tag)) ↔
      ((numberedLines input).foldl HeredocTracker.track ⟨[]⟩).opened ≠ [] := by
  constructor
  · intro hall
    have hbad := hall carriageScript [("cat <<'E'".toList, 1)] ("x\r".toList, 2) [("E".toList, 3)]
      (State.new.absorb ⟨[(1, ⟨['E'], false⟩)]⟩ ["cat <<'E'".toList]) (by decide +kernel) rfl
      (by decide)
    have hpending := congrArg State.pending (Except.ok.inj hbad)
    revert hpending
    decide +kernel
  · intro hall
    have hopen : ((numberedLines rejectedScript).foldl HeredocTracker.track ⟨[]⟩).opened ≠ [] := by
      decide +kernel
    obtain ⟨n, tag, hrejected⟩ := (hall rejectedScript).mpr hopen
    have hother : parseScript rejectedScript = .error (.unknownDirective 1 "frobnicate") := rfl
    rw [hother] at hrejected
    cases hrejected

end Shellflow
