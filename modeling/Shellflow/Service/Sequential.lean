import Shellflow.Dsl.Substitution
import Shellflow.Lib.Pieces
import Shellflow.Service.Staging

/-! The verifier replaces one name after another in the whole text, a deploy reads the references of
the path once. They agree as long as no replacement meets anything but a reference of the path. -/
namespace Shellflow.Sequential
open Staging (Vars resolve)
open Pieces
open Substitution (takeWhile_braced dropWhile_braced ne_brace)

/-- What the scan of a path is made of. -/
inductive Piece where
  | plain (text : List Char)
  | braced (name : List Char)
  | bare (name : List Char)
deriving DecidableEq, Repr

/-- A reference, or text when its name is no identifier. -/
def refOr (piece : List Char → Piece) (name literal : List Char) : Piece :=
  if isValidVarName (String.ofList name) then piece name else .plain literal

/-- The pieces of a path, in the order of the scan of `interpolate`. -/
def piecesOf : List Char → List Piece
  | [] => []
  | '$' :: '\x7b' :: rest =>
    let name := rest.takeWhile fun c => c != '\x7d'
    if '\x7d' ∈ rest then
      refOr .braced name ('$' :: '\x7b' :: (name ++ ['\x7d'])) ::
        piecesOf (rest.dropWhile fun c => c != '\x7d').tail
    else [.plain ('$' :: '\x7b' :: name)]
  | '$' :: rest =>
    let name := rest.takeWhile isNameChar
    refOr .bare name ('$' :: name) :: piecesOf (rest.dropWhile isNameChar)
  | c :: rest => .plain [c] :: piecesOf rest
termination_by s => s.length
decreasing_by
  · have hle := (List.dropWhile_suffix (l := rest) fun c => c != '\x7d').length_le
    simp only [List.length_tail, List.length_cons]
    omega
  · have hle := (List.dropWhile_suffix (l := rest) isNameChar).length_le
    simp only [List.length_cons]
    omega
  · simp

namespace Piece

/-- A reference is replaced by what its own reading binds its name to, or stays as it is written. -/
def read (braced bare : String → Option String) : Piece → List Char
  | .plain text => text
  | .braced name =>
    match braced (String.ofList name) with
    | some value => value.toList
    | none => '$' :: '\x7b' :: (name ++ ['\x7d'])
  | .bare name =>
    match bare (String.ofList name) with
    | some value => value.toList
    | none => '$' :: name

end Piece

section Scan
variable (vars : String → Option String)

attribute [local simp] piecesOf Piece.read

theorem piecesOf_braced {name : List Char} (hname : '\x7d' ∉ name) (tail : List Char) :
    piecesOf ('$' :: '\x7b' :: (name ++ '\x7d' :: tail)) =
      refOr .braced name ('$' :: '\x7b' :: (name ++ ['\x7d'])) :: piecesOf tail := by
  have hclosed : '\x7d' ∈ name ++ '\x7d' :: tail := List.mem_append_right _ List.mem_cons_self
  rw [piecesOf, if_pos hclosed, takeWhile_braced hname, dropWhile_braced hname, List.tail_cons]

theorem piecesOf_open {rest : List Char} (hopen : '\x7d' ∉ rest) :
    piecesOf ('$' :: '\x7b' :: rest) = [.plain ('$' :: '\x7b' :: rest)] := by
  have hrest : rest.takeWhile (fun c => c != '\x7d') = rest :=
    List.takeWhile_eq_self_iff.mpr (ne_brace hopen)
  rw [piecesOf, if_neg hopen, hrest]

theorem read_refOr_braced {name : List Char} :
    (refOr .braced name ('$' :: '\x7b' :: (name ++ ['\x7d']))).read (fun _ => none) (fun _ => none) =
      '$' :: '\x7b' :: (name ++ ['\x7d']) := by
  rw [refOr]
  split <;> rfl

theorem read_refOr_bare {name : List Char} :
    (refOr .bare name ('$' :: name)).read (fun _ => none) (fun _ => none) = '$' :: name := by
  rw [refOr]
  split <;> rfl

/-- Without any bindings the pieces are the path. -/
theorem flatMap_read_none (s : List Char) :
    (piecesOf s).flatMap (Piece.read (fun _ => none) fun _ => none) = s := by
  induction s using interpolateFrom.induct with
  | case1 => rw [piecesOf]; rfl
  | case2 rest hclosed ih =>
    obtain ⟨name, tail, rfl, hbrace⟩ := List.eq_append_cons_of_mem hclosed
    rw [dropWhile_braced hbrace, List.tail_cons] at ih
    rw [piecesOf_braced hbrace, List.flatMap_cons, read_refOr_braced, ih]
    simp
  | case3 rest hopen => rw [piecesOf_open hopen]; simp [Piece.read]
  | case4 rest hbrace ih =>
    rw [piecesOf.eq_3 _ hbrace, List.flatMap_cons, read_refOr_bare, ih, List.cons_append,
      List.takeWhile_append_dropWhile]
  | case5 c rest hbrace hc ih =>
    rw [piecesOf.eq_4 _ _ hbrace hc, List.flatMap_cons, ih]
    rfl

/-- The text of a reference is what its piece is read as. -/
theorem read_of_referenceText {vars : String → Option String} {template : String}
    {name literal value : List Char} {piece : List Char → Piece}
    (hpiece : ∀ binding, vars (String.ofList name) = some binding →
      (piece name).read vars vars = binding.toList)
    (h : referenceText vars template name literal = .ok value) :
    (refOr piece name literal).read vars vars = value := by
  rw [referenceText] at h
  rw [refOr]
  split at h
  next hvalid =>
    rw [if_pos hvalid]
    cases hbinding : vars (String.ofList name) with
    | none =>
      rw [hbinding] at h
      cases h
    | some binding =>
      rw [hbinding] at h
      cases h
      exact hpiece binding hbinding
  next hinvalid =>
    rw [if_neg hinvalid]
    cases h
    rfl

/-- A path whose references are bound is interpolated piece by piece. -/
theorem interpolateFrom_pieces {template : String} {s out : List Char}
    (h : interpolateFrom vars template s = .ok out) :
    (piecesOf s).flatMap (Piece.read vars vars) = out := by
  induction s using interpolateFrom.induct generalizing out with
  | case1 =>
    rw [interpolateFrom] at h
    cases h
    rw [piecesOf]
    rfl
  | case2 rest hclosed ih =>
    obtain ⟨name, tail, rfl, hbrace⟩ := List.eq_append_cons_of_mem hclosed
    rw [dropWhile_braced hbrace, List.tail_cons] at ih
    rw [interpolateFrom, if_pos hclosed, takeWhile_braced hbrace, dropWhile_braced hbrace,
      List.tail_cons] at h
    obtain ⟨value, hvalue, h⟩ := Fallible.bind_eq_ok.mp h
    obtain ⟨rest, hrest, h⟩ := Fallible.bind_eq_ok.mp h
    cases h
    rw [piecesOf_braced hbrace, List.flatMap_cons, ih hrest, read_of_referenceText _ hvalue]
    intro binding hbinding
    rw [Piece.read, hbinding]
  | case3 rest hopen =>
    have hrest : rest.takeWhile (fun c => c != '\x7d') = rest :=
      List.takeWhile_eq_self_iff.mpr (ne_brace hopen)
    rw [interpolateFrom, if_neg hopen, hrest] at h
    cases h
    rw [piecesOf_open hopen]
    simp [Piece.read]
  | case4 rest hbrace ih =>
    rw [interpolateFrom.eq_3 _ _ _ hbrace] at h
    obtain ⟨value, hvalue, h⟩ := Fallible.bind_eq_ok.mp h
    obtain ⟨tail, htail, h⟩ := Fallible.bind_eq_ok.mp h
    cases h
    rw [piecesOf.eq_3 _ hbrace, List.flatMap_cons, ih htail, read_of_referenceText _ hvalue]
    intro binding hbinding
    rw [Piece.read, hbinding]
  | case5 c rest hbrace hc ih =>
    rw [interpolateFrom.eq_4 _ _ _ _ hbrace hc] at h
    obtain ⟨tail, htail, h⟩ := Fallible.bind_eq_ok.mp h
    cases h
    rw [piecesOf.eq_4 _ _ hbrace hc, List.flatMap_cons, ih htail]
    rfl

end Scan

section Replace
variable {vars : Vars} {path : String}

/-- What a name is bound to. -/
def bound (vars : Vars) (name : String) : Option String := vars.lookup name

def IsBraced (name : String) : Piece → Prop
  | .braced n => String.ofList n = name
  | _ => False

def IsBare (name : String) : Piece → Prop
  | .bare n => String.ofList n = name
  | _ => False

instance (name : String) : DecidablePred (IsBraced name)
  | .braced n => inferInstanceAs (Decidable (String.ofList n = name))
  | .plain _ => isFalse id
  | .bare _ => isFalse id

instance (name : String) : DecidablePred (IsBare name)
  | .bare n => inferInstanceAs (Decidable (String.ofList n = name))
  | .plain _ => isFalse id
  | .braced _ => isFalse id

def bracedText (name : String) : List Char := ("$\x7b" ++ name ++ "\x7d").toList

def bareText (name : String) : List Char := ("$" ++ name).toList

/-- At the turn of each name, with the references to the names before it replaced, the text of a
reference to it stands only where the path has one: first in braces, then bare. -/
def Untouched (vars : Vars) (path : String) : Prop :=
  ∀ front v rest, vars = front ++ v :: rest →
    OnlyOwn (Piece.read (bound front) (bound front)) (IsBraced v.1) (bracedText v.1)
      (piecesOf path.toList) ∧
    OnlyOwn (Piece.read (bound (front ++ [v])) (bound front)) (IsBare v.1) (bareText v.1)
      (piecesOf path.toList)

theorem bracedText_eq (name : String) :
    bracedText name = '$' :: '\x7b' :: (name.toList ++ ['\x7d']) := by
  rw [bracedText, String.toList_append, String.toList_append]
  rfl

theorem bareText_eq (name : String) : bareText name = '$' :: name.toList := by
  rw [bareText, String.toList_append]
  rfl

theorem bound_concat {front : Vars} {v : String × String} (hfresh : bound front v.1 = none)
    (name : String) :
    bound (front ++ [v]) name = if name = v.1 then some v.2 else bound front name := by
  rw [bound, List.lookup_append]
  by_cases hname : name = v.1
  · have hself : [v].lookup name = some v.2 := by rw [hname, List.lookup_cons, beq_self_eq_true]
    have hnone : front.lookup name = none := hname ▸ hfresh
    rw [if_pos hname, hnone, hself]
    rfl
  · have hother : [v].lookup name = none := by rw [List.lookup_cons, beq_false_of_ne hname]; rfl
    rw [if_neg hname, hother, Option.or_none]
    rfl

/-- The pieces in braces take the value of the name. -/
theorem read_braced {front : Vars} {v : String × String} (hfresh : bound front v.1 = none)
    (piece : Piece) :
    (if IsBraced v.1 piece then v.2.toList else piece.read (bound front) (bound front)) =
      piece.read (bound (front ++ [v])) (bound front) := by
  cases piece with
  | plain text => exact if_neg id
  | bare name => exact if_neg id
  | braced name =>
    rw [Piece.read, Piece.read, bound_concat hfresh]
    by_cases hname : String.ofList name = v.1
    · rw [if_pos hname]
      exact if_pos hname
    · rw [if_neg hname]
      exact if_neg hname

theorem read_bare {front : Vars} {v : String × String} (hfresh : bound front v.1 = none)
    (piece : Piece) :
    (if IsBare v.1 piece then v.2.toList else piece.read (bound (front ++ [v])) (bound front)) =
      piece.read (bound (front ++ [v])) (bound (front ++ [v])) := by
  cases piece with
  | plain text => exact if_neg id
  | braced name => exact if_neg id
  | bare name =>
    rw [Piece.read, Piece.read, bound_concat hfresh]
    by_cases hname : String.ofList name = v.1
    · rw [if_pos hname]
      exact if_pos hname
    · rw [if_neg hname]
      exact if_neg hname

/-- The turn of one name. -/
theorem replace_turn {front rest : Vars} {v : String × String}
    (h : Untouched (front ++ v :: rest) path) (hfresh : bound front v.1 = none) :
    Str.replaceFrom (bareText v.1) v.2.toList 0 (Str.replaceFrom (bracedText v.1) v.2.toList 0
        ((piecesOf path.toList).flatMap (Piece.read (bound front) (bound front)))) =
      (piecesOf path.toList).flatMap (Piece.read (bound (front ++ [v])) (bound (front ++ [v]))) := by
  obtain ⟨hbraced, hbare⟩ := h front v rest rfl
  have hbracedNe : bracedText v.1 ≠ [] := by rw [bracedText_eq]; exact List.cons_ne_nil _ _
  have hbareNe : bareText v.1 ≠ [] := by rw [bareText_eq]; exact List.cons_ne_nil _ _
  rw [replaceFrom_pieces v.2.toList hbracedNe ?_ hbraced, funext (read_braced hfresh),
    replaceFrom_pieces v.2.toList hbareNe ?_ hbare, funext (read_bare hfresh)]
  · intro piece _ hmine
    cases piece with
    | plain text => exact hmine.elim
    | braced name => exact hmine.elim
    | bare name =>
      have hname : String.ofList name = v.1 := hmine
      rw [Piece.read, hname, hfresh, bareText_eq, ← hname, String.toList_ofList]
  · intro piece _ hmine
    cases piece with
    | plain text => exact hmine.elim
    | bare name => exact hmine.elim
    | braced name =>
      have hname : String.ofList name = v.1 := hmine
      rw [Piece.read, hname, hfresh, bracedText_eq, ← hname, String.toList_ofList]

theorem resolve_cons (v : String × String) (rest : Vars) (out : String) :
    resolve (v :: rest) out = resolve rest (String.ofList
      (Str.replaceFrom (bareText v.1) v.2.toList 0
        (Str.replaceFrom (bracedText v.1) v.2.toList 0 out.toList))) := by
  have hturn : Str.replace (Str.replace out ("$\x7b" ++ v.1 ++ "\x7d") v.2) ("$" ++ v.1) v.2 =
      String.ofList (Str.replaceFrom (bareText v.1) v.2.toList 0
        (Str.replaceFrom (bracedText v.1) v.2.toList 0 out.toList)) := by
    rw [Str.replace, Str.replace, String.toList_ofList, bareText, bracedText]
  rw [resolve, List.foldl_cons, hturn, resolve]

/-- The names from one on, when those before it have been replaced. -/
theorem foldl_replace {front rest : Vars} {out : String}
    (h : Untouched (front ++ rest) path) (hnodup : ((front ++ rest).map Prod.fst).Nodup)
    (hout : out.toList =
      (piecesOf path.toList).flatMap (Piece.read (bound front) (bound front))) :
    (resolve rest out).toList = (piecesOf path.toList).flatMap
      (Piece.read (bound (front ++ rest)) (bound (front ++ rest))) := by
  induction rest generalizing front out with
  | nil => rw [List.append_nil]; exact hout
  | cons v rest ih =>
    have hfresh : bound front v.1 = none := by
      rw [bound, List.lookup_eq_none_iff]
      intro p hp
      have hne : p.1 ≠ v.1 := by
        rw [List.map_append, List.nodup_append] at hnodup
        exact hnodup.2.2 p.1 (List.mem_map_of_mem hp) v.1 List.mem_cons_self
      exact bne_iff_ne.mpr hne.symm
    have hsplit : front ++ v :: rest = (front ++ [v]) ++ rest := by
      rw [List.append_assoc]
      rfl
    have hturn := replace_turn h hfresh
    rw [hsplit] at h hnodup ⊢
    rw [resolve_cons, hout, hturn]
    exact ih h hnodup String.toList_ofList

end Replace

section Apart
variable {vars front rest : Vars} {path : String} {v : String × String}

/-- Plain values, no stray dollar, and no bound name that begins a longer bare one; a name stands
behind those it begins with, as in a sorted map. -/
structure Apart (vars : Vars) (path : String) : Prop where
  names : ∀ v ∈ vars, isValidVarName v.1 = true
  order : vars.Pairwise fun v w => ¬ w.1.toList <+: v.1.toList
  values : ∀ v ∈ vars, '$' ∉ v.2.toList
  plain : ∀ text, .plain text ∈ piecesOf path.toList → '$' ∉ text
  braced : ∀ name, .braced name ∈ piecesOf path.toList → (bound vars (String.ofList name)).isSome
  bare : ∀ name, .bare name ∈ piecesOf path.toList → (bound vars (String.ofList name)).isSome
  whole : ∀ name, .bare name ∈ piecesOf path.toList → ∀ v ∈ vars, v.1.toList <+: name →
    v.1.toList = name

theorem mem_of_bound {name value : String} (h : bound vars name = some value) :
    (name, value) ∈ vars := by
  obtain ⟨l₁, l₂, rfl, -⟩ := List.lookup_eq_some_iff.mp h
  exact List.mem_append_right _ List.mem_cons_self

theorem Apart.name (h : Apart vars path) {name : List Char}
    (hbound : (bound vars (String.ofList name)).isSome) :
    ∃ value, (String.ofList name, value) ∈ vars ∧
      ∀ c ∈ name, (isAsciiAlphanumeric c || c == '_') = true := by
  obtain ⟨value, hvalue⟩ := Option.isSome_iff_exists.mp hbound
  have hmem := mem_of_bound hvalue
  refine ⟨value, hmem, fun c hc => varChar_of_isValidVarName (h.names _ hmem) c ?_⟩
  rwa [String.toList_ofList]

theorem name_ne_nil {name : String} (h : isValidVarName name = true) : name.toList ≠ [] :=
  (isWord_of_isValidVarName h).1

theorem eq_nil_of_mark {mark : Char} {t u w : List Char} (ht : mark ∉ t)
    (h : mark :: t = u ++ mark :: w) : u = [] := by
  cases u with
  | nil => rfl
  | cons d u =>
    rw [(List.cons.inj h).2] at ht
    exact absurd (List.mem_append_right u List.mem_cons_self) ht

/-- A dollar starts a piece. -/
theorem Apart.dollar (h : Apart vars path) {f g : Vars} (hf : f ⊆ vars) (hg : g ⊆ vars) :
    ∀ p ∈ piecesOf path.toList, ∀ u w, p.read (bound f) (bound g) = u ++ '$' :: w → u = [] := by
  intro p hp u w hread
  have hvalue : ∀ {l : Vars} {name value : String}, l ⊆ vars → bound l name = some value →
      value.toList ≠ u ++ '$' :: w := by
    intro l name value hl hvalue heq
    refine h.values _ (hl (mem_of_bound hvalue)) ?_
    rw [heq]
    exact List.mem_append_right u List.mem_cons_self
  cases p with
  | plain text =>
    refine absurd ?_ (h.plain text hp)
    rw [show text = u ++ '$' :: w from hread]
    exact List.mem_append_right u List.mem_cons_self
  | braced name =>
    obtain ⟨-, -, hname⟩ := h.name (h.braced name hp)
    rw [Piece.read] at hread
    cases hbound : bound f (String.ofList name) with
    | some value =>
      rw [hbound] at hread
      exact absurd hread (hvalue hf hbound)
    | none =>
      rw [hbound] at hread
      refine eq_nil_of_mark (fun hmem => ?_) hread
      rw [List.mem_cons, List.mem_append, List.mem_singleton] at hmem
      rcases hmem with heq | hmem | heq
      · exact absurd heq (by decide)
      · exact absurd (hname '$' hmem) (by decide)
      · exact absurd heq (by decide)
  | bare name =>
    obtain ⟨-, -, hname⟩ := h.name (h.bare name hp)
    rw [Piece.read] at hread
    cases hbound : bound g (String.ofList name) with
    | some value =>
      rw [hbound] at hread
      exact absurd hread (hvalue hg hbound)
    | none =>
      rw [hbound] at hread
      exact eq_nil_of_mark (fun hmem => absurd (hname '$' hmem) (by decide)) hread

/-- The piece that a dollar starts: a reference that is not replaced yet. -/
theorem Apart.piece (h : Apart vars path) {f g : Vars} (hf : f ⊆ vars) (hg : g ⊆ vars)
    {x z : List Char}
    (heq : (piecesOf path.toList).flatMap (Piece.read (bound f) (bound g)) = x ++ '$' :: z) :
    ∃ l₁ p l₂, piecesOf path.toList = l₁ ++ p :: l₂ ∧
      l₁.flatMap (Piece.read (bound f) (bound g)) = x ∧
      ((∃ name, p = .braced name ∧ bound f (String.ofList name) = none ∧
          '\x7b' :: (name ++ '\x7d' :: l₂.flatMap (Piece.read (bound f) (bound g))) = z) ∨
        ∃ name, p = .bare name ∧ bound g (String.ofList name) = none ∧
          name ++ l₂.flatMap (Piece.read (bound f) (bound g)) = z) := by
  obtain ⟨l₁, p, l₂, u, hsplit, hp, hl₁, hz⟩ := exists_piece_of_mark (h.dollar hf hg) heq
  have hmem : p ∈ piecesOf path.toList := hsplit ▸ List.mem_append_right _ List.mem_cons_self
  have hvalue : ∀ {l : Vars} {name value : String}, l ⊆ vars → bound l name = some value →
      value.toList ≠ '$' :: u := by
    intro l name value hl hvalue heq
    refine h.values _ (hl (mem_of_bound hvalue)) ?_
    rw [heq]
    exact List.mem_cons_self
  refine ⟨l₁, p, l₂, hsplit, hl₁, ?_⟩
  cases p with
  | plain text =>
    have htext : text = '$' :: u := hp
    exact absurd (htext ▸ List.mem_cons_self) (h.plain text hmem)
  | braced name =>
    rw [Piece.read] at hp
    cases hbound : bound f (String.ofList name) with
    | some value =>
      rw [hbound] at hp
      exact absurd hp (hvalue hf hbound)
    | none =>
      rw [hbound] at hp
      refine .inl ⟨name, rfl, hbound, ?_⟩
      rw [← hz, ← (List.cons.inj hp).2]
      simp
  | bare name =>
    rw [Piece.read] at hp
    cases hbound : bound g (String.ofList name) with
    | some value =>
      rw [hbound] at hp
      exact absurd hp (hvalue hg hbound)
    | none =>
      rw [hbound] at hp
      exact .inr ⟨name, rfl, hbound, by rw [← hz, ← (List.cons.inj hp).2]⟩

theorem not_nameChar_brace : ¬ (isAsciiAlphanumeric '\x7b' || '\x7b' == '_') = true := by decide

theorem not_nameChar_close : ¬ (isAsciiAlphanumeric '\x7d' || '\x7d' == '_') = true := by decide

/-- In braces only the whole name fits. -/
theorem Apart.onlyOwn_braced (h : Apart (front ++ v :: rest) path) :
    OnlyOwn (Piece.read (bound front) (bound front)) (IsBraced v.1) (bracedText v.1)
      (piecesOf path.toList) := by
  have hfront : front ⊆ front ++ v :: rest := List.subset_append_left _ _
  have hv : v ∈ front ++ v :: rest := List.mem_append_right _ List.mem_cons_self
  intro x y heq
  rw [bracedText_eq, List.append_assoc] at heq
  obtain ⟨l₁, p, l₂, hsplit, hl₁, hpiece⟩ := h.piece hfront hfront heq
  have hmem : p ∈ piecesOf path.toList := hsplit ▸ List.mem_append_right _ List.mem_cons_self
  rcases hpiece with ⟨name, rfl, -, htext⟩ | ⟨name, rfl, -, htext⟩
  · obtain ⟨-, -, hname⟩ := h.name (h.braced name hmem)
    have hclose : '\x7d' ∉ name := fun hc => not_nameChar_close (hname _ hc)
    have hclose' : '\x7d' ∉ v.1.toList := fun hc =>
      not_nameChar_close (varChar_of_isValidVarName (h.names v hv) _ hc)
    have hrest : name ++ '\x7d' :: l₂.flatMap (Piece.read (bound front) (bound front)) =
        v.1.toList ++ '\x7d' :: y := by simpa using htext
    have hsplits := Str.splitOnceChars_of_notMem
      (l₂.flatMap (Piece.read (bound front) (bound front))) hclose
    rw [hrest, Str.splitOnceChars_of_notMem y hclose'] at hsplits
    obtain ⟨hsame, hy⟩ := Prod.mk.inj (Option.some.inj hsplits)
    refine ⟨l₁, _, l₂, hsplit, ?_, hl₁, hy.symm⟩
    rw [IsBraced, ← hsame, String.ofList_toList]
  · obtain ⟨value, hvalue, hname⟩ := h.name (h.bare name hmem)
    have hne := name_ne_nil (h.names _ hvalue)
    rw [String.toList_ofList] at hne
    obtain ⟨c, name, rfl⟩ := List.exists_cons_of_ne_nil hne
    have hc : c = '\x7b' := (List.cons.inj htext).1
    exact absurd (hc ▸ hname c List.mem_cons_self) not_nameChar_brace

/-- A bare name is met where it is the whole name of a reference, or begins one. -/
theorem Apart.onlyOwn_bare (h : Apart (front ++ v :: rest) path) :
    OnlyOwn (Piece.read (bound (front ++ [v])) (bound front)) (IsBare v.1) (bareText v.1)
      (piecesOf path.toList) := by
  have hfront : front ⊆ front ++ v :: rest := List.subset_append_left _ _
  have hconcat : front ++ [v] ⊆ front ++ v :: rest := fun w hw => by
    rw [List.append_cons]
    exact List.mem_append_left _ hw
  have hv : v ∈ front ++ v :: rest := List.mem_append_right _ List.mem_cons_self
  intro x y heq
  rw [bareText_eq, List.append_assoc] at heq
  obtain ⟨l₁, p, l₂, hsplit, hl₁, hpiece⟩ := h.piece hconcat hfront heq
  have hmem : p ∈ piecesOf path.toList := hsplit ▸ List.mem_append_right _ List.mem_cons_self
  rcases hpiece with ⟨name, rfl, -, htext⟩ | ⟨name, rfl, hnone, htext⟩
  · obtain ⟨c, tail, hcons⟩ := List.exists_cons_of_ne_nil (name_ne_nil (h.names v hv))
    rw [hcons] at htext
    have hc : '\x7b' = c := (List.cons.inj htext).1
    refine absurd (varChar_of_isValidVarName (h.names v hv) '\x7b' ?_) not_nameChar_brace
    rw [hcons, hc]
    exact List.mem_cons_self
  · have hsame : v.1.toList = name ∧ l₂.flatMap (Piece.read (bound (front ++ [v])) (bound front)) =
        y := by
      rcases List.append_eq_append_iff.mp htext with ⟨a, hname, hy⟩ | ⟨a, hname, hy⟩
      · cases a with
        | nil => exact ⟨by rw [hname, List.append_nil], hy⟩
        | cons d a =>
          -- the shorter name would have been replaced before
          obtain ⟨value, hvalue, -⟩ := h.name (h.bare name hmem)
          have hpre : (String.ofList name).toList <+: v.1.toList := by
            rw [String.toList_ofList, hname]
            exact List.prefix_append _ _
          rcases List.mem_append.mp hvalue with hearly | hlate
          · exact absurd rfl (List.lookup_eq_none_iff.mp hnone _ hearly |> bne_iff_ne.mp)
          · rcases List.mem_cons.mp hlate with heq' | hlate
            · have hlen := congrArg (fun p => p.1.toList.length) heq'
              simp only [String.toList_ofList, hname, List.length_append, List.length_cons] at hlen
              omega
            · have horder := (List.pairwise_append.mp h.order).2.1
              exact absurd hpre (List.rel_of_pairwise_cons horder hlate)
      · have hpre : v.1.toList <+: name := hname ▸ List.prefix_append _ _
        have hwhole := h.whole name hmem v hv hpre
        rw [hwhole] at hname
        have hnil : a = [] := List.append_right_eq_self.mp hname.symm
        rw [hnil] at hy
        exact ⟨hwhole, hy.symm⟩
    refine ⟨l₁, _, l₂, hsplit, ?_, hl₁, hsame.2⟩
    rw [IsBare, ← hsame.1, String.ofList_toList]

/-- So plain values and separate names leave nothing else to be replaced. -/
theorem untouched_of_apart (h : Apart vars path) : Untouched vars path := by
  rintro front v rest rfl
  exact ⟨h.onlyOwn_braced, h.onlyOwn_bare⟩

end Apart

/-- The verifier resolves a path like a deploy when no replacement meets anything but a reference
of the path. -/
theorem resolve_eq_interpolate (vars : Vars) (path : String)
    (hnodup : (vars.map Prod.fst).Nodup) (h : Untouched vars path) (out : String)
    (hout : interpolate path (bound vars) = .ok out) : resolve vars path = out := by
  have hpath : path.toList =
      (piecesOf path.toList).flatMap (Piece.read (bound []) (bound [])) :=
    (flatMap_read_none path.toList).symm
  have hresolved := @foldl_replace path [] vars path h hnodup hpath
  obtain ⟨text, htext, hofList⟩ := Fallible.map_eq_ok.mp hout
  rw [List.nil_append, interpolateFrom_pieces _ htext] at hresolved
  rw [← hofList, ← hresolved, String.ofList_toList]

/-- The variables of a playbook, and a path that names both. -/
def serviceVars : Vars := [("SVC", "app"), ("UNIT", "worker")]

def servicePath : String := "services/$\x7bSVC\x7d/$UNIT"

theorem piecesOf_servicePath : piecesOf servicePath.toList =
    "services/".toList.map (fun c => .plain [c]) ++
      [.braced "SVC".toList, .plain ['/'], .bare "UNIT".toList] := by
  decide +kernel

theorem apart_service : Apart serviceVars servicePath where
  names := by decide
  order := by decide
  values := by decide
  plain := by
    rw [piecesOf_servicePath]
    simp
  braced := by
    rw [piecesOf_servicePath]
    simp [serviceVars, bound]
  bare := by
    rw [piecesOf_servicePath]
    simp [serviceVars, bound]
  whole := by
    rw [piecesOf_servicePath]
    simp [serviceVars]

theorem resolve_service :
    interpolate servicePath (bound serviceVars) = .ok "services/app/worker" ∧
      resolve serviceVars servicePath = "services/app/worker" := by
  have hout : interpolate servicePath (bound serviceVars) = .ok "services/app/worker" := by
    decide +kernel
  exact ⟨hout, resolve_eq_interpolate serviceVars servicePath (by decide)
    (untouched_of_apart apart_service) _ hout⟩

/-- One name begins another one. -/
def prefixPlaybook : String := "SVC=app\nSVC_UNIT=worker\n"

theorem resolve_replaces_in_a_longer_name : ¬ ∀ text path out,
    (∀ v ∈ Staging.variablesOf text, isValidVarName v.1 = true) →
      interpolate path (bound (Staging.variablesOf text)) = .ok out →
        resolve (Staging.variablesOf text) path = out := by
  intro hall
  have hvars : Staging.variablesOf prefixPlaybook = [("SVC", "app"), ("SVC_UNIT", "worker")] := by
    decide
  have hresolved := hall prefixPlaybook "/etc/$SVC_UNIT" "/etc/worker"
  rw [hvars] at hresolved
  have hwrong : resolve [("SVC", "app"), ("SVC_UNIT", "worker")] "/etc/$SVC_UNIT" =
      "/etc/app_UNIT" := by decide
  have heq := hwrong.symm.trans (hresolved (by decide) (by decide +kernel))
  exact absurd heq (by decide)

end Shellflow.Sequential
