import Shellflow.Dsl.Interpolate

/-! One-pass substitution of references, and the templates on which `interpolate` performs it. Its
scanner copies a `${` without a valid name up to the brace, or up to the end, and passes over what
stands in between. -/
namespace Shellflow.Substitution

/-- What a template is made of. -/
inductive Piece where
  | text (c : Char)
  | reference (name : String)
deriving DecidableEq, Repr

/-- The reference that stands right behind a `$`, and what follows it. -/
def referenceAt : List Char → Option (String × List Char)
  | '\x7b' :: body =>
    let name := body.takeWhile fun c => c != '\x7d'
    if '\x7d' ∈ body ∧ isValidVarName (String.ofList name) then
      some (String.ofList name, (body.dropWhile fun c => c != '\x7d').tail)
    else none
  | s =>
    let name := s.takeWhile isNameChar
    if isValidVarName (String.ofList name) then
      some (String.ofList name, s.dropWhile isNameChar)
    else none

theorem length_referenceAt {s tail : List Char} {name : String}
    (h : referenceAt s = some (name, tail)) : tail.length ≤ s.length := by
  unfold referenceAt at h
  split at h
  · rename_i body
    have hle := (List.dropWhile_suffix (l := body) fun c => c != '\x7d').length_le
    dsimp only at h
    split at h
    · cases h
      simp only [List.length_tail, List.length_cons]
      omega
    · cases h
  · dsimp only at h
    split at h
    · cases h
      exact (List.dropWhile_suffix isNameChar).length_le
    · cases h

/-- One pass from the left: a `$` that begins no reference is text, and the scan goes on right
behind it. -/
def pieces : List Char → List Piece
  | [] => []
  | c :: rest =>
    match _h : if c = '$' then referenceAt rest else none with
    | some (name, tail) => .reference name :: pieces tail
    | none => .text c :: pieces rest
termination_by s => s.length
decreasing_by
  · split at _h
    · have hle := length_referenceAt _h
      rw [List.length_cons]
      omega
    · cases _h
  · simp

section
variable (vars : String → Option String)

def Piece.value : Piece → List Char
  | .text c => [c]
  | .reference name => ((vars name).getD "").toList

def render (parts : List Piece) : List Char := parts.flatMap (Piece.value vars)

/-- The result is the template with its references replaced, and an error where one of them is
unbound. -/
def Substitutes (parts : List Piece) : Except InterpolateError (List Char) → Prop
  | .ok out => (∀ name, .reference name ∈ parts → (vars name).isSome = true) ∧
      out = render vars parts
  | .error _ => ∃ name, .reference name ∈ parts ∧ vars name = none

end

/-- A reference begins before the next closing brace. -/
def referenceAhead : List Char → Bool
  | [] => false
  | c :: rest =>
    c != '\x7d' && ((c == '$' && (referenceAt rest).isSome) || referenceAhead rest)

/-- Somewhere a reference stands behind a `${` with no closing brace between the two. -/
def hiddenReference : List Char → Bool
  | [] => false
  | c :: rest =>
    (c == '$' && rest.head? == some '\x7b' && referenceAhead rest.tail) || hiddenReference rest

section Pieces
variable {s e : List Char} {name : String} {tail : List Char}

@[simp] theorem pieces_nil : pieces [] = [] := by rw [pieces]

theorem pieces_reference (h : referenceAt s = some (name, tail)) :
    pieces ('$' :: s) = .reference name :: pieces tail := by
  rw [pieces]
  split
  · rename_i found hfound
    rw [if_pos rfl, h] at hfound
    cases hfound
    rfl
  · rename_i hfound
    rw [if_pos rfl, h] at hfound
    cases hfound

theorem pieces_text {c : Char} (h : c = '$' → referenceAt s = none) :
    pieces (c :: s) = .text c :: pieces s := by
  have hnone : (if c = '$' then referenceAt s else none) = none := by
    by_cases hc : c = '$'
    · rw [if_pos hc, h hc]
    · rw [if_neg hc]
  rw [pieces]
  split
  · rename_i found hfound
    rw [hnone] at hfound
    cases hfound
  · rfl

/-- Text without a `$` stays as it is. -/
theorem pieces_plain {t : List Char} (h : '$' ∉ t) :
    pieces (t ++ e) = t.map Piece.text ++ pieces e := by
  induction t with
  | nil => rfl
  | cons c t ih =>
    obtain ⟨hc, ht⟩ := not_or.mp (mt List.mem_cons.mpr h)
    rw [List.cons_append, pieces_text fun heq => absurd heq.symm hc, ih ht, List.map_cons,
      List.cons_append]

theorem referenceAhead_cons {c : Char} (hc : c ≠ '\x7d') :
    referenceAhead (c :: s) = ((c == '$' && (referenceAt s).isSome) || referenceAhead s) := by
  rw [referenceAhead, bne_iff_ne.mpr hc, Bool.true_and]

/-- So does text up to a closing brace in which no reference begins. -/
theorem pieces_ahead {t : List Char} (hbrace : '\x7d' ∉ t) (h : referenceAhead (t ++ e) = false) :
    pieces (t ++ e) = t.map Piece.text ++ pieces e := by
  induction t with
  | nil => rfl
  | cons c t ih =>
    obtain ⟨hc, ht⟩ := not_or.mp (mt List.mem_cons.mpr hbrace)
    rw [List.cons_append, referenceAhead_cons fun heq => hc heq.symm, Bool.or_eq_false_iff] at h
    have hnone : c = '$' → referenceAt (t ++ e) = none := by
      intro heq
      have hsome := h.1
      rw [heq, beq_self_eq_true, Bool.true_and, Option.isSome_eq_false_iff,
        Option.isNone_iff_eq_none] at hsome
      exact hsome
    rw [List.cons_append, pieces_text hnone, ih ht h.2, List.map_cons, List.cons_append]

theorem hiddenReference_plain {t : List Char} (h : '$' ∉ t) :
    hiddenReference (t ++ e) = hiddenReference e := by
  induction t with
  | nil => rfl
  | cons c t ih =>
    obtain ⟨hc, ht⟩ := not_or.mp (mt List.mem_cons.mpr h)
    have hdollar : (c == '$') = false := beq_false_of_ne fun heq => hc heq.symm
    rw [List.cons_append, hiddenReference, hdollar, Bool.false_and, Bool.false_and, Bool.false_or,
      ih ht]

theorem referenceAhead_tail {c : Char} (hc : c ≠ '\x7d') (h : referenceAhead (c :: s) = false) :
    referenceAhead s = false := by
  rw [referenceAhead_cons hc, Bool.or_eq_false_iff] at h
  exact h.2

theorem hiddenReference_ahead {t : List Char} (hbrace : '\x7d' ∉ t)
    (h : referenceAhead (t ++ e) = false) : hiddenReference (t ++ e) = hiddenReference e := by
  induction t with
  | nil => rfl
  | cons c t ih =>
    obtain ⟨hc, ht⟩ := not_or.mp (mt List.mem_cons.mpr hbrace)
    rw [List.cons_append] at h
    have hrest := referenceAhead_tail (fun heq => hc heq.symm) h
    have hnested : (t ++ e).head? = some '\x7b' → referenceAhead (t ++ e).tail = false := by
      intro hhead
      cases hsplit : t ++ e with
      | nil => rfl
      | cons d u =>
        rw [hsplit] at hhead hrest
        cases hhead
        exact referenceAhead_tail (by decide) hrest
    rw [List.cons_append, hiddenReference, ih ht hrest]
    by_cases hhead : (t ++ e).head? = some '\x7b'
    · rw [hnested hhead, Bool.and_false, Bool.false_or]
    · rw [beq_false_of_ne hhead, Bool.and_false, Bool.false_and, Bool.false_or]

theorem not_hidden_suffix (t : List Char) (h : hiddenReference (t ++ e) = false) :
    hiddenReference e = false := by
  induction t with
  | nil => exact h
  | cons c t ih =>
    rw [List.cons_append, hiddenReference, Bool.or_eq_false_iff] at h
    exact ih h.2

theorem ahead_of_not_hidden (h : hiddenReference ('$' :: '\x7b' :: s) = false) :
    referenceAhead s = false := by
  rw [hiddenReference, Bool.or_eq_false_iff] at h
  exact h.1

theorem pieces_braced {t : List Char} (hat : referenceAt ('\x7b' :: (t ++ e)) = none)
    (hbrace : '\x7d' ∉ t) (h : referenceAhead (t ++ e) = false) :
    pieces ('$' :: '\x7b' :: (t ++ e)) = ('$' :: '\x7b' :: t).map Piece.text ++ pieces e := by
  rw [pieces_text fun _ => hat, pieces_text fun heq => absurd heq (by decide), pieces_ahead hbrace h, List.map_cons,
    List.map_cons, List.cons_append, List.cons_append]

end Pieces

section Scan
variable {name tail : List Char}

theorem ne_brace (h : '\x7d' ∉ name) : ∀ c ∈ name, (c != '\x7d') = true := by
  rintro c hc
  rw [bne_iff_ne]
  rintro rfl
  exact h hc

theorem takeWhile_braced (h : '\x7d' ∉ name) :
    (name ++ '\x7d' :: tail).takeWhile (fun c => c != '\x7d') = name := by
  rw [List.takeWhile_append_of_pos (ne_brace h), List.takeWhile_cons_of_neg (by decide), List.append_nil]

theorem dropWhile_braced (h : '\x7d' ∉ name) :
    (name ++ '\x7d' :: tail).dropWhile (fun c => c != '\x7d') = '\x7d' :: tail := by
  rw [List.dropWhile_append_of_pos (ne_brace h), List.dropWhile_cons_of_neg (by decide)]

theorem dollar_notMem (h : ∀ c ∈ name, isNameChar c = true) : '$' ∉ name :=
  fun hmem => absurd (h _ hmem) (by decide)

theorem isNameChar_of_valid (h : isValidVarName (String.ofList name) = true) :
    ∀ c ∈ name, isNameChar c = true := by
  rw [isValidVarName, String.toList_ofList] at h
  cases name with
  | nil => cases h
  | cons first rest =>
    rw [Bool.and_eq_true, List.all_eq_true] at h
    intro c hc
    rcases List.mem_cons.mp hc with rfl | hc
    · rw [isNameChar, isAsciiAlphanumeric, Bool.or_right_comm, h.1, Bool.true_or]
    · exact h.2 c hc

theorem referenceAt_braced (h : '\x7d' ∉ name) :
    referenceAt ('\x7b' :: (name ++ '\x7d' :: tail)) =
      if isValidVarName (String.ofList name) then some (String.ofList name, tail) else none := by
  have hmem : '\x7d' ∈ name ++ '\x7d' :: tail := List.mem_append_right _ List.mem_cons_self
  simp only [referenceAt, takeWhile_braced h, dropWhile_braced h, List.tail_cons, hmem, true_and]

theorem referenceAt_open (h : '\x7d' ∉ tail) : referenceAt ('\x7b' :: tail) = none := by
  simp only [referenceAt, h, false_and, if_false]

theorem referenceAt_bare {s : List Char} (h : s.head? ≠ some '\x7b') :
    referenceAt s =
      if isValidVarName (String.ofList (s.takeWhile isNameChar)) then
        some (String.ofList (s.takeWhile isNameChar), s.dropWhile isNameChar)
      else none := by
  unfold referenceAt
  split
  · exact absurd rfl h
  · rfl

end Scan

theorem head_ne_brace {s : List Char} (h : ∀ body, s = '\x7b' :: body → False) :
    s.head? ≠ some '\x7b' := by
  intro hhead
  cases s with
  | nil => cases hhead
  | cons c s =>
    cases hhead
    exact h s rfl

/-- Without a closing brace all of the rest is text. -/
theorem pieces_open {rest : List Char} (hopen : '\x7d' ∉ rest) (h : referenceAhead rest = false) :
    pieces ('$' :: '\x7b' :: rest) = ('$' :: '\x7b' :: rest).map Piece.text := by
  have hnil : rest ++ [] = rest := List.append_nil rest
  have hparts : pieces ('$' :: '\x7b' :: (rest ++ [])) =
      ('$' :: '\x7b' :: rest).map Piece.text ++ pieces [] :=
    pieces_braced (by rw [hnil, referenceAt_open hopen]) hopen (by rwa [hnil])
  rwa [hnil, pieces_nil, List.append_nil] at hparts

section Agree
variable {vars : String → Option String} {template : String} {parts : List Piece}
  {r : Except InterpolateError (List Char)}

theorem render_texts (t : List Char) :
    render vars (t.map Piece.text ++ parts) = t ++ render vars parts := by
  induction t with
  | nil => rfl
  | cons c t ih => rw [List.map_cons, List.cons_append, render, List.flatMap_cons, ← render, ih,
      Piece.value, List.singleton_append, List.cons_append]

theorem Substitutes.texts (t : List Char) (h : Substitutes vars parts r) :
    Substitutes vars (t.map Piece.text ++ parts) (do let out ← r; .ok (t ++ out)) := by
  have hmem : ∀ name, .reference name ∈ t.map Piece.text ++ parts ↔ .reference name ∈ parts := by
    intro name
    simp
  cases r with
  | ok out =>
    obtain ⟨hbound, rfl⟩ := h
    exact ⟨fun name hname => hbound name ((hmem name).mp hname), (render_texts t).symm⟩
  | error e =>
    obtain ⟨name, hname, hnone⟩ := h
    exact ⟨name, (hmem name).mpr hname, hnone⟩

theorem Substitutes.reference {name : List Char} (literal : List Char)
    (hvalid : isValidVarName (String.ofList name) = true) (h : Substitutes vars parts r) :
    Substitutes vars (.reference (String.ofList name) :: parts)
      (do let value ← referenceText vars template name literal
          let out ← r
          .ok (value ++ out)) := by
  rw [referenceText, if_pos hvalid]
  cases hvar : vars (String.ofList name) with
  | none => exact ⟨_, List.mem_cons_self, hvar⟩
  | some value =>
    cases r with
    | ok out =>
      obtain ⟨hbound, rfl⟩ := h
      refine ⟨fun other hother => ?_, ?_⟩
      · rcases List.mem_cons.mp hother with heq | hother
        · cases heq
          rw [hvar, Option.isSome_some]
        · exact hbound other hother
      · show value.toList ++ render vars parts = _
        rw [render, render, List.flatMap_cons, Piece.value, hvar, Option.getD_some]
    | error e =>
      obtain ⟨other, hother, hnone⟩ := h
      exact ⟨other, List.mem_cons_of_mem _ hother, hnone⟩

theorem referenceText_invalid {name literal : List Char}
    (h : ¬ isValidVarName (String.ofList name) = true) :
    referenceText vars template name literal = .ok literal := by
  rw [referenceText, if_neg h]

/-- The scanner substitutes in one pass where it hides no reference. -/
theorem substitutes_interpolateFrom {s : List Char} (h : hiddenReference s = false) :
    Substitutes vars (pieces s) (interpolateFrom vars template s) := by
  induction s using interpolateFrom.induct with
  | case1 =>
    rw [pieces_nil, interpolateFrom]
    exact ⟨fun name hname => absurd hname List.not_mem_nil, rfl⟩
  | case2 rest hclosed ih =>
    obtain ⟨name, tail, rfl, hbrace⟩ := List.eq_append_cons_of_mem hclosed
    rw [dropWhile_braced hbrace, List.tail_cons] at ih
    rw [interpolateFrom, if_pos hclosed, takeWhile_braced hbrace, dropWhile_braced hbrace,
      List.tail_cons]
    have hafter : hiddenReference tail = false :=
      not_hidden_suffix ('$' :: '\x7b' :: (name ++ ['\x7d'])) (by simpa using h)
    by_cases hvalid : isValidVarName (String.ofList name) = true
    · have hat : referenceAt ('\x7b' :: (name ++ '\x7d' :: tail)) =
          some (String.ofList name, tail) := by rw [referenceAt_braced hbrace, if_pos hvalid]
      rw [pieces_reference hat]
      exact (ih hafter).reference _ hvalid
    · have hat : referenceAt ('\x7b' :: (name ++ '\x7d' :: tail)) = none := by
        rw [referenceAt_braced hbrace, if_neg hvalid]
      have hparts : pieces ('$' :: '\x7b' :: (name ++ '\x7d' :: tail)) =
          ('$' :: '\x7b' :: (name ++ ['\x7d'])).map Piece.text ++ pieces tail := by
        rw [pieces_braced hat hbrace (ahead_of_not_hidden h),
          pieces_text fun heq => absurd heq (by decide)]
        simp
      rw [referenceText_invalid hvalid, hparts]
      exact (ih hafter).texts ('$' :: '\x7b' :: (name ++ ['\x7d']))
  | case3 rest hopen =>
    have hrest : rest.takeWhile (fun c => c != '\x7d') = rest :=
      List.takeWhile_eq_self_iff.mpr (ne_brace hopen)
    have hparts := pieces_open hopen (ahead_of_not_hidden h)
    have hnil : Substitutes vars [] (.ok []) :=
      ⟨fun name hname => absurd hname List.not_mem_nil, rfl⟩
    have htexts : Substitutes vars (('$' :: '\x7b' :: rest).map Piece.text ++ [])
        (.ok ('$' :: '\x7b' :: rest ++ [])) := hnil.texts ('$' :: '\x7b' :: rest)
    rw [List.append_nil, List.append_nil] at htexts
    rw [interpolateFrom, if_neg hopen, hrest, hparts]
    exact htexts
  | case4 rest hbrace ih =>
    have hhead := head_ne_brace hbrace
    have hsplit : rest.takeWhile isNameChar ++ rest.dropWhile isNameChar = rest :=
      List.takeWhile_append_dropWhile
    have hname : ∀ c ∈ rest.takeWhile isNameChar, isNameChar c = true :=
      fun c hc => List.mem_takeWhile_imp hc
    have hafter : hiddenReference (rest.dropWhile isNameChar) = false :=
      not_hidden_suffix ('$' :: rest.takeWhile isNameChar) (by rwa [List.cons_append, hsplit])
    rw [interpolateFrom.eq_3 _ _ _ hbrace]
    by_cases hvalid : isValidVarName (String.ofList (rest.takeWhile isNameChar)) = true
    · have hat := referenceAt_bare hhead
      rw [if_pos hvalid] at hat
      rw [pieces_reference hat]
      exact (ih hafter).reference _ hvalid
    · have hat := referenceAt_bare hhead
      rw [if_neg hvalid] at hat
      have hparts : pieces ('$' :: rest) = ('$' :: rest.takeWhile isNameChar).map Piece.text ++
          pieces (rest.dropWhile isNameChar) := by
        rw [pieces_text fun _ => hat, List.map_cons, List.cons_append,
          ← pieces_plain (dollar_notMem hname), hsplit]
      rw [referenceText_invalid hvalid, hparts]
      exact (ih hafter).texts _
  | case5 c rest hbrace hc ih =>
    rw [interpolateFrom.eq_4 _ _ _ _ hbrace hc, pieces_text fun heq => absurd heq hc]
    exact (ih (not_hidden_suffix [c] h)).texts [c]

end Agree

section Emptied

/-- Every variable is captured, with an empty value. -/
def emptied : String → Option String := fun _ => some ""

def emptiedLength (s : List Char) : Nat := (render emptied (pieces s)).length

theorem emptiedLength_text {c : Char} {s : List Char} (h : c = '$' → referenceAt s = none) :
    emptiedLength (c :: s) = emptiedLength s + 1 := by
  have hrest : emptiedLength s = (render emptied (pieces s)).length := rfl
  rw [emptiedLength, pieces_text h, render, List.flatMap_cons, ← render, Piece.value,
    List.length_append, List.length_singleton, hrest, Nat.add_comm]

theorem emptiedLength_reference {s tail : List Char} {name : String}
    (h : referenceAt s = some (name, tail)) : emptiedLength ('$' :: s) = emptiedLength tail := by
  show (render emptied (pieces ('$' :: s))).length = (render emptied (pieces tail)).length
  rw [pieces_reference h]
  rfl

/-- The end of the text, or a closing brace. -/
def Closed (e : List Char) : Prop := e = [] ∨ ∃ tail, e = '\x7d' :: tail

theorem dropWhile_closed {t e : List Char} (he : Closed e) :
    (t ++ e).dropWhile isNameChar = t.dropWhile isNameChar ++ e := by
  have hstop : e.dropWhile isNameChar = e := by
    rcases he with rfl | ⟨tail, rfl⟩
    · rfl
    · exact List.dropWhile_cons_of_neg (by decide)
  rw [List.dropWhile_append, hstop]
  split
  · rename_i hempty
    rw [List.isEmpty_iff.mp hempty, List.nil_append]
  · rfl

theorem referenceAhead_closed {e : List Char} (he : Closed e) : referenceAhead e = false := by
  rcases he with rfl | ⟨tail, rfl⟩
  · rfl
  · rfl

/-- Behind a reference before the brace there is less left than the text had. -/
theorem emptiedLength_behind {t e tail : List Char} {name : String} (hbrace : '\x7d' ∉ t)
    (he : Closed e) (hat : referenceAt (t ++ e) = some (name, tail))
    (ih : ∀ u : List Char, u.length ≤ t.length → '\x7d' ∉ u →
      emptiedLength (u ++ e) ≤ u.length + emptiedLength e) :
    emptiedLength tail ≤ t.length + emptiedLength e := by
  by_cases hhead : (t ++ e).head? = some '\x7b'
  · cases t with
    | nil =>
      rcases he with rfl | ⟨tail, rfl⟩
      · cases hhead
      · exact absurd (Option.some.inj hhead) (by decide)
    | cons c body =>
      cases hhead
      have hbody : '\x7d' ∉ body := fun hmem => hbrace (List.mem_cons_of_mem _ hmem)
      rcases he with rfl | ⟨rest, rfl⟩
      · rw [List.append_nil, referenceAt_open hbody] at hat
        cases hat
      · rw [List.cons_append, referenceAt_braced hbody] at hat
        split at hat
        · cases hat
          rw [emptiedLength_text fun heq => absurd heq (by decide)]
          omega
        · cases hat
  · rw [referenceAt_bare hhead, dropWhile_closed he] at hat
    split at hat
    · cases hat
      have hsuffix : t.dropWhile isNameChar <:+ t := List.dropWhile_suffix isNameChar
      have hle := hsuffix.length_le
      have hrest := ih _ hle fun hmem => hbrace (hsuffix.subset hmem)
      omega
    · cases hat

theorem emptiedLength_ahead {t e : List Char} (hbrace : '\x7d' ∉ t) (he : Closed e) :
    emptiedLength (t ++ e) ≤ t.length + emptiedLength e ∧
      (referenceAhead (t ++ e) = true → emptiedLength (t ++ e) < t.length + emptiedLength e) := by
  induction hn : t.length using Nat.strong_induction_on generalizing t with
  | _ n ih =>
    cases t with
    | nil =>
      subst hn
      rw [List.nil_append, referenceAhead_closed he]
      exact ⟨by omega, fun h => absurd h Bool.false_ne_true⟩
    | cons c t =>
      obtain ⟨hc, ht⟩ := not_or.mp (mt List.mem_cons.mpr hbrace)
      rw [List.length_cons] at hn
      rw [List.cons_append, referenceAhead_cons fun heq => hc heq.symm]
      by_cases hfound : c = '$' ∧ (referenceAt (t ++ e)).isSome = true
      · obtain ⟨hdollar, hsome⟩ := hfound
        obtain ⟨⟨name, tail⟩, hat⟩ := Option.isSome_iff_exists.mp hsome
        have hle := emptiedLength_behind ht he hat fun u hu hubrace =>
          (ih u.length (by omega) hubrace rfl).1
        rw [hdollar, emptiedLength_reference hat]
        exact ⟨by omega, fun _ => by omega⟩
      · have hnone : c = '$' → referenceAt (t ++ e) = none := fun hdollar =>
          Option.not_isSome_iff_eq_none.mp fun hsome => hfound ⟨hdollar, hsome⟩
        have hstep := ih t.length (by omega) ht rfl
        rw [emptiedLength_text hnone]
        refine ⟨by omega, fun hahead => ?_⟩
        rw [Bool.or_eq_true, Bool.and_eq_true, beq_iff_eq] at hahead
        have := hstep.2 (hahead.resolve_left hfound)
        omega

theorem hidden_braced {t e : List Char} (hbrace : '\x7d' ∉ t)
    (h : hiddenReference ('$' :: '\x7b' :: (t ++ e)) = true) :
    referenceAhead (t ++ e) = true ∨ hiddenReference e = true := by
  by_cases hahead : referenceAhead (t ++ e) = true
  · exact Or.inl hahead
  · have hnot := Bool.eq_false_iff.mpr hahead
    rw [hiddenReference, List.tail_cons, hnot, Bool.and_false, Bool.false_or, hiddenReference,
      hiddenReference_ahead hbrace hnot] at h
    exact Or.inr h

theorem referenceAhead_plain {t e : List Char} (h : '$' ∉ t) (he : Closed e) :
    referenceAhead (t ++ e) = false := by
  induction t with
  | nil => exact referenceAhead_closed he
  | cons c t ih =>
    obtain ⟨hc, ht⟩ := not_or.mp (mt List.mem_cons.mpr h)
    rw [List.cons_append, referenceAhead, ih ht, beq_false_of_ne fun heq => hc heq.symm,
      Bool.false_and, Bool.or_false, Bool.and_false]

/-- With empty values the scanner leaves at least what the substitution leaves, and more where it
hides a reference. -/
theorem emptiedLength_le (template : String) (s : List Char) :
    ∃ out, interpolateFrom emptied template s = .ok out ∧ emptiedLength s ≤ out.length ∧
      (hiddenReference s = true → emptiedLength s < out.length) := by
  induction s using interpolateFrom.induct with
  | case1 => exact ⟨[], by rw [interpolateFrom], by simp [emptiedLength, render], nofun⟩
  | case2 rest hclosed ih =>
    obtain ⟨name, tail, rfl, hbrace⟩ := List.eq_append_cons_of_mem hclosed
    rw [dropWhile_braced hbrace, List.tail_cons] at ih
    obtain ⟨out, hout, hle, hlt⟩ := ih
    have hend : Closed ('\x7d' :: tail) := Or.inr ⟨tail, rfl⟩
    have htail : emptiedLength ('\x7d' :: tail) = emptiedLength tail + 1 :=
      emptiedLength_text fun heq => absurd heq (by decide)
    rw [interpolateFrom, if_pos hclosed, takeWhile_braced hbrace, dropWhile_braced hbrace,
      List.tail_cons, hout]
    by_cases hvalid : isValidVarName (String.ofList name) = true
    · have hat : referenceAt ('\x7b' :: (name ++ '\x7d' :: tail)) =
          some (String.ofList name, tail) := by rw [referenceAt_braced hbrace, if_pos hvalid]
      have hplain := dollar_notMem (isNameChar_of_valid hvalid)
      refine ⟨out, by rw [referenceText, if_pos hvalid]; rfl, ?_, fun hidden => ?_⟩
      · rwa [emptiedLength_reference hat]
      · rw [emptiedLength_reference hat]
        refine hlt ((hidden_braced hbrace hidden).resolve_left ?_)
        rw [referenceAhead_plain hplain hend]
        exact Bool.false_ne_true
    · have hat : referenceAt ('\x7b' :: (name ++ '\x7d' :: tail)) = none := by
        rw [referenceAt_braced hbrace, if_neg hvalid]
      obtain ⟨hname, hnamelt⟩ := emptiedLength_ahead hbrace hend
      have hlen : emptiedLength ('$' :: '\x7b' :: (name ++ '\x7d' :: tail)) =
          emptiedLength (name ++ '\x7d' :: tail) + 1 + 1 := by
        rw [emptiedLength_text fun _ => hat, emptiedLength_text fun heq => absurd heq (by decide)]
      have houtlen : ('$' :: '\x7b' :: (name ++ ['\x7d']) ++ out).length =
          name.length + out.length + 3 := by
        simp only [List.length_append, List.length_cons, List.length_nil]
        omega
      refine ⟨'$' :: '\x7b' :: (name ++ ['\x7d']) ++ out, by rw [referenceText_invalid hvalid]; rfl,
        by omega, fun hidden => ?_⟩
      rcases hidden_braced hbrace hidden with hahead | hafter
      · have := hnamelt hahead
        omega
      · rw [hiddenReference] at hafter
        have := hlt hafter
        omega
  | case3 rest hopen =>
    have hnil : rest ++ [] = rest := List.append_nil rest
    have hrest : rest.takeWhile (fun c => c != '\x7d') = rest :=
      List.takeWhile_eq_self_iff.mpr (ne_brace hopen)
    obtain ⟨hle, hlt⟩ := emptiedLength_ahead (e := []) hopen (Or.inl rfl)
    have hzero : emptiedLength [] = 0 := by simp [emptiedLength, render]
    rw [hnil] at hle hlt
    have hlen : emptiedLength ('$' :: '\x7b' :: rest) = emptiedLength rest + 1 + 1 := by
      rw [emptiedLength_text fun _ => referenceAt_open hopen,
        emptiedLength_text fun heq => absurd heq (by decide)]
    rw [interpolateFrom, if_neg hopen, hrest]
    refine ⟨_, rfl, by simp only [List.length_cons]; omega, fun hidden => ?_⟩
    rw [← hnil] at hidden
    rcases hidden_braced hopen hidden with hahead | hafter
    · rw [hnil] at hahead
      have := hlt hahead
      simp only [List.length_cons]
      omega
    · cases hafter
  | case4 rest hbrace ih =>
    obtain ⟨out, hout, hle, hlt⟩ := ih
    have hhead := head_ne_brace hbrace
    have hsplit : rest.takeWhile isNameChar ++ rest.dropWhile isNameChar = rest :=
      List.takeWhile_append_dropWhile
    have hplain : '$' ∉ rest.takeWhile isNameChar :=
      dollar_notMem fun c hc => List.mem_takeWhile_imp hc
    have hafter : hiddenReference ('$' :: rest) = true →
        hiddenReference (rest.dropWhile isNameChar) = true := by
      intro hidden
      rw [hiddenReference, beq_false_of_ne hhead, Bool.and_false, Bool.false_and, Bool.false_or,
        ← hsplit, hiddenReference_plain hplain] at hidden
      exact hidden
    rw [interpolateFrom.eq_3 _ _ _ hbrace, hout]
    by_cases hvalid : isValidVarName (String.ofList (rest.takeWhile isNameChar)) = true
    · have hat := referenceAt_bare hhead
      rw [if_pos hvalid] at hat
      rw [emptiedLength_reference hat]
      exact ⟨out, by rw [referenceText, if_pos hvalid]; rfl, hle, fun hidden => hlt (hafter hidden)⟩
    · have hat := referenceAt_bare hhead
      rw [if_neg hvalid] at hat
      have hname : emptiedLength rest =
          (rest.takeWhile isNameChar).length + emptiedLength (rest.dropWhile isNameChar) := by
        have hpieces := pieces_plain (e := rest.dropWhile isNameChar) hplain
        rw [hsplit] at hpieces
        rw [emptiedLength, hpieces, render_texts, List.length_append]
        rfl
      have hlen : emptiedLength ('$' :: rest) = emptiedLength rest + 1 :=
        emptiedLength_text fun _ => hat
      have houtlen : ('$' :: rest.takeWhile isNameChar ++ out).length =
          (rest.takeWhile isNameChar).length + out.length + 1 := by
        simp only [List.length_append, List.length_cons]
        omega
      refine ⟨'$' :: rest.takeWhile isNameChar ++ out, by rw [referenceText_invalid hvalid]; rfl,
        by omega, fun hidden => ?_⟩
      have := hlt (hafter hidden)
      omega
  | case5 c rest hbrace hc ih =>
    obtain ⟨out, hout, hle, hlt⟩ := ih
    have hlen : emptiedLength (c :: rest) = emptiedLength rest + 1 :=
      emptiedLength_text fun heq => absurd heq hc
    refine ⟨c :: out, by rw [interpolateFrom.eq_4 _ _ _ _ hbrace hc, hout]; rfl,
      by rw [List.length_cons]; omega, fun hidden => ?_⟩
    rw [hiddenReference, beq_false_of_ne hc, Bool.false_and, Bool.false_and, Bool.false_or] at hidden
    have := hlt hidden
    rw [List.length_cons]
    omega

end Emptied

/-- `interpolate` is the one-pass substitution. -/
def InterpolatesAs (template : String) (vars : String → Option String) : Prop :=
  Substitutes vars (pieces template.toList) ((interpolate template vars).map String.toList)

theorem map_interpolate (template : String) (vars : String → Option String) :
    (interpolate template vars).map String.toList =
      interpolateFrom vars template template.toList := by
  rw [interpolate]
  cases interpolateFrom vars template template.toList with
  | ok out => exact congrArg Except.ok String.toList_ofList
  | error e => rfl

theorem interpolatesAs_iff (template : String) :
    (∀ vars, InterpolatesAs template vars) ↔ hiddenReference template.toList = false := by
  constructor
  · intro hall
    rw [Bool.eq_false_iff]
    intro hidden
    obtain ⟨out, hout, -, hlt⟩ := emptiedLength_le template template.toList
    have hlonger := hlt hidden
    have hsame := hall emptied
    rw [InterpolatesAs, map_interpolate, hout] at hsame
    rw [hsame.2, emptiedLength] at hlonger
    exact Nat.lt_irrefl _ hlonger
  · intro h vars
    rw [InterpolatesAs, map_interpolate]
    exact substitutes_interpolateFrom h

/-- The reference behind an unclosed brace is kept as text. -/
theorem reference_behind_brace_kept : ¬ ∀ template vars, InterpolatesAs template vars := by
  intro hall
  have hsame := hall "$\x7b $HOST" fun _ => some "web"
  have hout : interpolateFrom (fun _ => some "web") "$\x7b $HOST" "$\x7b $HOST".toList =
      .ok "$\x7b $HOST".toList := by
    have hlist : "$\x7b $HOST".toList = '$' :: '\x7b' :: " $HOST".toList := by decide
    rw [hlist, interpolateFrom, if_neg (by decide)]
    rfl
  have hparts : pieces "$\x7b $HOST".toList =
      [.text '$', .text '\x7b', .text ' ', .reference "HOST"] := by
    have hlist : "$\x7b $HOST".toList = ['$', '\x7b', ' ', '$', 'H', 'O', 'S', 'T'] := by decide
    have hat : referenceAt ['H', 'O', 'S', 'T'] = some ("HOST", []) := by decide
    rw [hlist, pieces_text fun _ => by decide, pieces_text fun heq => absurd heq (by decide),
      pieces_text fun heq => absurd heq (by decide), pieces_reference hat, pieces_nil]
  rw [InterpolatesAs, map_interpolate, hout, hparts] at hsame
  exact absurd hsame.2 (by decide)

end Shellflow.Substitution
