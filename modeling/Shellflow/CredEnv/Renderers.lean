import Shellflow.CredEnv.BashRender

/-! The two credential renderers against each other. -/
namespace Shellflow
open Splice

/-- A credential directory: every file has a name of its own, and no value has a byte of zero. -/
structure CredentialDir where
  files : List Credential
  distinct : (files.map Credential.name).Nodup
  nulFree : ∀ f ∈ files, 0 ∉ f.bytes

namespace CredentialDir

/-- The files that can be referred to, in the order of the directory. -/
def credentials (dir : CredentialDir) : List Credential := dir.files.filter fun f => isVarName f.name

end CredentialDir

/-- Both write the same, or both refuse. -/
def Agree (bash : Except (List Raw) Raw) (rust : Except RenderError Raw) : Prop :=
  bash.toOption = rust.toOption

/-- At the turn of each credential its placeholder stands in the partly filled line only where the
template has it. -/
def Inert (line : List Piece) (done : List Credential) : List Credential → Prop
  | [] => True
  | cred :: creds =>
    OwnOnly (placeholder cred.name)
      (line.map fun piece => (piece.text (valueOf done), piece == .ref cred.name)) ∧
      Inert line (done ++ [cred]) creds

instance decidableInert (line : List Piece) : ∀ done creds, Decidable (Inert line done creds)
  | _, [] => isTrue trivial
  | done, cred :: creds =>
    have := decidableInert line (done ++ [cred]) creds
    inferInstanceAs (Decidable (OwnOnly _ _ ∧ Inert line (done ++ [cred]) creds))

/-- No value brings about a placeholder that is filled in later. -/
def NotReexpanded (dir : CredentialDir) (template : Raw) : Prop :=
  ∀ line ∈ templateLines template, Inert (pieces line) [] dir.credentials

theorem valueOf_append (creds : List Credential) (cred : Credential) (key : Raw) :
    valueOf (creds ++ [cred]) key =
      (valueOf creds key).or (if cred.name = key then some cred.bytes else none) := by
  rw [valueOf, valueOf, List.find?_append, List.find?_singleton]
  by_cases hname : cred.name = key
  · rw [if_pos hname, if_pos (by rw [hname]; exact BEq.rfl)]
    cases creds.find? fun cred => cred.name == key <;> rfl
  · rw [if_neg hname, if_neg (by simpa using hname)]
    cases creds.find? fun cred => cred.name == key <;> rfl

theorem valueOf_eq_none {creds : List Credential} {key : Raw}
    (h : key ∉ creds.map Credential.name) : valueOf creds key = none := by
  rw [valueOf, Option.map_eq_none_iff, List.find?_eq_none]
  intro cred hcred hname
  exact h (eq_of_beq hname ▸ List.mem_map_of_mem hcred)

/-- The turn of one credential fills in its placeholders. -/
theorem substitute_fill {line : List Piece} {done : List Credential} {cred : Credential}
    (hnew : cred.name ∉ done.map Credential.name)
    (h : OwnOnly (placeholder cred.name)
      (line.map fun piece => (piece.text (valueOf done), piece == .ref cred.name))) :
    substitute (fill (valueOf done) line) (placeholder cred.name) cred.bytes
      (placeholder_ne_nil cred.name) = fill (valueOf (done ++ [cred])) line := by
  have hreplaces : Replaces (placeholder cred.name) cred.bytes fun text =>
      substitute text (placeholder cred.name) cred.bytes (placeholder_ne_nil cred.name) :=
    replaces_substitute
  have hchunks := hreplaces.chunks h
  rw [List.flatMap_map, List.flatMap_map] at hchunks
  refine hchunks.trans (List.flatMap_congr fun piece _ => ?_)
  cases piece with
  | lit b => rfl
  | ref key =>
    by_cases hkey : cred.name = key
    · rw [← hkey, if_pos (by exact BEq.rfl), Piece.text, valueOf_append, valueOf_eq_none hnew,
        if_pos rfl]
      rfl
    · rw [if_neg (by simpa using Ne.symm hkey), Piece.text, Piece.text, valueOf_append, if_neg hkey,
        Option.or_none]

theorem foldl_substitute {line : List Piece} {done creds : List Credential}
    (hdistinct : ((done ++ creds).map Credential.name).Nodup)
    (hvalues : ∀ cred ∈ creds, shellValue cred.bytes = cred.bytes) (h : Inert line done creds) :
    creds.foldl (fun text cred => substitute text (placeholder cred.name) (shellValue cred.bytes)
        (placeholder_ne_nil cred.name)) (fill (valueOf done) line) =
      fill (valueOf (done ++ creds)) line := by
  induction creds generalizing done with
  | nil => rw [List.append_nil]; rfl
  | cons cred creds ih =>
    have hsplit : done ++ cred :: creds = done ++ [cred] ++ creds := by rw [List.append_assoc]; rfl
    have hnew : cred.name ∉ done.map Credential.name := by
      rw [List.map_append, List.map_cons] at hdistinct
      exact fun hmem => List.disjoint_of_nodup_append hdistinct hmem List.mem_cons_self
    rw [List.foldl_cons, hvalues cred List.mem_cons_self, substitute_fill hnew h.1, hsplit]
    exact ih (hsplit ▸ hdistinct) (fun c hc => hvalues c (List.mem_cons_of_mem cred hc)) h.2

namespace CredentialDir
variable (dir : CredentialDir)

theorem distinct_credentials : (dir.credentials.map Credential.name).Nodup :=
  dir.distinct.sublist (List.filter_sublist.map _)

theorem shellValue_eq {f : Credential} (hf : f ∈ dir.files) : shellValue f.bytes = f.bytes := by
  refine List.filter_eq_self.mpr fun b hb => decide_eq_true ?_
  rintro rfl
  exact dir.nulFree f hf hb

/-- A line in which nothing is filled in twice comes out as in one pass. -/
theorem renderLine_eq {line : Raw} (h : Inert (pieces line) [] dir.credentials) :
    renderLine dir.files line = fill (valueOf dir.credentials) (pieces line) := by
  have hvalues : ∀ cred ∈ dir.credentials, shellValue cred.bytes = cred.bytes :=
    fun cred hcred => dir.shellValue_eq (List.mem_of_mem_filter hcred)
  have hfold := foldl_substitute dir.distinct_credentials hvalues h
  have hnone : valueOf [] = fun _ => none := rfl
  rw [hnone, fill_none, credentials, List.foldl_filter] at hfold
  exact hfold

end CredentialDir

/-! What the script writes and when it refuses. -/

theorem notMem_templateLinesFrom {cur s line : Raw} (hcur : 0 ∉ cur)
    (h : line ∈ templateLinesFrom cur s) : 0 ∉ line := by
  induction s generalizing cur with
  | nil =>
    rw [templateLinesFrom] at h
    split at h
    · cases h
    · exact List.mem_singleton.mp h ▸ hcur
  | cons b s ih =>
    rw [templateLinesFrom] at h
    split at h
    · cases List.mem_cons.mp h with
      | inl hline => exact hline ▸ hcur
      | inr hlater => exact ih List.not_mem_nil hlater
    · split at h
      · exact ih hcur h
      next hzero =>
        refine ih (fun hmem => ?_) h
        cases List.mem_append.mp hmem with
        | inl hold => exact hcur hold
        | inr hnew => exact hzero (List.mem_singleton.mp hnew).symm

theorem notMem_renderLine (files : List Credential) {line : Raw} (h : 0 ∉ line) :
    0 ∉ renderLine files line := by
  unfold renderLine
  induction files generalizing line with
  | nil => exact h
  | cons f files ih =>
    rw [List.foldl_cons]
    apply ih
    split
    · intro hmem
      have hreplaces : Replaces (placeholder f.name) (shellValue f.bytes) fun text =>
          substitute text (placeholder f.name) (shellValue f.bytes) (placeholder_ne_nil f.name) :=
        replaces_substitute
      cases hreplaces.mem (placeholder_ne_nil f.name) hmem with
      | inl hline => exact h hline
      | inr hvalue => simp [shellValue] at hvalue
    · exact h

theorem notMem_writeLines (first : Bool) {lines : List Raw} (h : ∀ line ∈ lines, 0 ∉ line) :
    0 ∉ writeLines first lines := by
  induction lines generalizing first with
  | nil => exact List.not_mem_nil
  | cons line lines ih =>
    obtain ⟨hline, hlines⟩ := List.forall_mem_cons.mp h
    rw [writeLines, List.mem_append, not_or]
    refine ⟨?_, ih false hlines⟩
    split
    · exact hline
    · exact List.not_mem_cons_of_ne_of_not_mem (by decide) hline

theorem flatMap_refs_templateLinesFrom (cur s : Raw) :
    (templateLinesFrom cur s).flatMap refs = refs (cur ++ s.filter (· ≠ 0)) := by
  induction s generalizing cur with
  | nil =>
    rw [templateLinesFrom, List.filter_nil, List.append_nil]
    split
    next hcur => rw [hcur]; rfl
    next => rw [List.flatMap_singleton]
  | cons b s ih =>
    rw [templateLinesFrom]
    split
    next hb =>
      have hkeep : (b :: s).filter (· ≠ 0) = newline :: s.filter (· ≠ 0) := by
        rw [hb, List.filter_cons_of_pos (by decide)]
      rw [List.flatMap_cons, ih, hkeep, refs, refs, refs, pieces_newline, List.filterMap_append]
      rfl
    next =>
      split
      next hzero => rw [ih, List.filter_cons_of_neg (by simp [hzero])]
      next hzero =>
        rw [ih, List.filter_cons_of_pos (by simp [hzero]), List.append_assoc]
        rfl

theorem templateLinesFrom_ne_nil (cur : Raw) {s : Raw} (hs : 0 ∉ s) (h : cur ≠ [] ∨ s ≠ []) :
    templateLinesFrom cur s ≠ [] := by
  induction s generalizing cur with
  | nil =>
    rw [templateLinesFrom, if_neg (h.resolve_right (not_not.mpr rfl))]
    exact List.cons_ne_nil _ _
  | cons b s ih =>
    obtain ⟨hb, hs⟩ := not_or.mp (List.mem_cons.not.mp hs)
    rw [templateLinesFrom]
    split
    · exact List.cons_ne_nil _ _
    · rw [if_neg (Ne.symm hb)]
      exact ih _ hs (.inl (List.append_ne_nil_of_right_ne_nil _ (List.cons_ne_nil _ _)))

theorem writeLines_false {lines : List Raw} (h : lines ≠ []) :
    writeLines false lines = newline :: writeLines true lines := by
  cases lines with
  | nil => exact absurd rfl h
  | cons line lines => rfl

theorem missingFinalNewline_append (a : Raw) {s : Raw} (h : s ≠ []) :
    missingFinalNewline (a ++ s) = missingFinalNewline s := by
  rw [missingFinalNewline, missingFinalNewline, List.getLast?_append_of_ne_nil a h]

theorem missingFinalNewline_of_notMem {line : Raw} (hne : line ≠ []) (hnewline : newline ∉ line)
    (hzero : 0 ∉ line) : missingFinalNewline line = true := by
  have hlast := List.getLast?_eq_some_getLast hne
  have hmem := List.getLast_mem hne
  have hb : line.getLast hne ≠ newline := fun h => hnewline (h ▸ hmem)
  have hb' : line.getLast hne ≠ 0 := fun h => hzero (h ▸ hmem)
  rw [missingFinalNewline, hlast]
  simp [hb, hb']

theorem fill_newline (values : Raw → Option Raw) (line rest : Raw) :
    fill values (pieces (line ++ newline :: rest)) =
      fill values (pieces line) ++ newline :: fill values (pieces rest) := by
  rw [pieces_newline, fill, List.flatMap_append]
  rfl

/-- Written line by line, with a newline at the end when the template has one there, the text is
that of the whole template. -/
theorem writeLines_templateLinesFrom {values : Raw → Option Raw} {g : Raw → Raw} {cur s : Raw}
    (hcur : newline ∉ cur) (hzero : 0 ∉ cur) (hs : 0 ∉ s)
    (hg : ∀ line ∈ templateLinesFrom cur s, g line = fill values (pieces line)) :
    writeLines true ((templateLinesFrom cur s).map g) ++
      (if templateLinesFrom cur s ≠ [] && !missingFinalNewline (cur ++ s) then [newline] else []) =
        fill values (pieces (cur ++ s)) := by
  induction s generalizing cur with
  | nil =>
    rw [List.append_nil]
    rw [templateLinesFrom] at hg ⊢
    by_cases hempty : cur = []
    · rw [if_pos hempty, hempty]
      rfl
    · rw [if_neg hempty] at hg ⊢
      rw [missingFinalNewline_of_notMem hempty hcur hzero, Bool.not_true, Bool.and_false,
        if_neg Bool.false_ne_true, List.append_nil, List.map_singleton, hg cur List.mem_cons_self]
      exact List.append_nil _
  | cons b s ih =>
    obtain ⟨hb, hs⟩ := not_or.mp (List.mem_cons.not.mp hs)
    rw [templateLinesFrom] at hg ⊢
    by_cases hnewline : b = newline
    · rw [if_pos hnewline] at hg ⊢
      obtain ⟨hline, hlater⟩ := List.forall_mem_cons.mp hg
      have hrest := ih List.not_mem_nil List.not_mem_nil hs hlater
      rw [hnewline, fill_newline, List.map_cons, writeLines, hline, if_pos rfl, List.append_assoc]
      congr 1
      cases s with
      | nil =>
        have hlast : missingFinalNewline (cur ++ [newline]) = false := by
          rw [missingFinalNewline_append cur (List.cons_ne_nil _ _)]
          rfl
        rw [hlast, templateLinesFrom]
        rfl
      | cons c s =>
        have hlines := templateLinesFrom_ne_nil [] hs (.inr (List.cons_ne_nil c s))
        have hlast : missingFinalNewline (cur ++ newline :: c :: s) =
            missingFinalNewline ([] ++ c :: s) := by
          rw [missingFinalNewline_append cur (List.cons_ne_nil _ _)]
          exact missingFinalNewline_append [newline] (List.cons_ne_nil c s)
        have hcons : templateLinesFrom [] (c :: s) ≠ [] ↔
            (cur :: templateLinesFrom [] (c :: s)) ≠ [] :=
          ⟨fun _ => List.cons_ne_nil _ _, fun _ => hlines⟩
        rw [writeLines_false (by simpa using hlines), hlast, ← decide_eq_decide.mpr hcons,
          List.cons_append, hrest, List.nil_append]
    · have hcons : cur ++ b :: s = cur ++ [b] ++ s := by rw [List.append_assoc]; rfl
      rw [if_neg hnewline, if_neg (Ne.symm hb)] at hg ⊢
      rw [hcons]
      refine ih (fun h => ?_) (fun h => ?_) hs hg
      · exact (List.mem_append.mp h).elim hcur fun hmem =>
          hnewline (List.mem_singleton.mp hmem).symm
      · exact (List.mem_append.mp h).elim hzero fun hmem => hb (List.mem_singleton.mp hmem)

theorem isVarName_of_mem_refs {content key : Raw} (h : key ∈ refs content) :
    isVarName key = true := by
  induction content using piece_induction with
  | nil => cases h
  | ref key' rest hname ih =>
    rw [refs_ref hname] at h
    cases List.mem_cons.mp h with
    | inl heq => exact heq ▸ hname
    | inr hrest => exact ih hrest
  | lit b s href ih => exact ih (refs_lit href ▸ h)

namespace CredentialDir
variable (dir : CredentialDir) (template : Raw)

/-- Every key has a credential. -/
def Provides (keys : List Raw) : Prop := ∀ key ∈ keys, (valueOf dir.credentials key).isSome

theorem any_name_iff {key : Raw} (hname : isVarName key = true) :
    (dir.files.any fun f => f.name == key) = true ↔ (valueOf dir.credentials key).isSome := by
  rw [List.any_eq_true, Option.isSome_iff_exists]
  constructor
  · intro h
    obtain ⟨f, hf, hkey⟩ := h
    have hkey : f.name = key := eq_of_beq hkey
    refine ⟨f.bytes, (valueOf_eq_some_iff dir.distinct_credentials).mpr ?_⟩
    exact hkey ▸ List.mem_filter.mpr ⟨hf, hkey ▸ hname⟩
  · intro h
    obtain ⟨value, hvalue⟩ := h
    have hmem := (valueOf_eq_some_iff dir.distinct_credentials).mp hvalue
    exact ⟨_, List.mem_of_mem_filter hmem, BEq.rfl⟩

/-- The script looks for the keys of the template without its bytes of zero. -/
theorem reported_eq_nil_iff :
    (templateLines template).flatMap (reportMissing fun key => dir.files.any fun f => f.name == key) =
      [] ↔ dir.Provides (refs (template.filter (· ≠ 0))) := by
  have hrefs := flatMap_refs_templateLinesFrom [] template
  rw [List.nil_append] at hrefs
  have hreport : reportMissing (fun key => dir.files.any fun f => f.name == key) = fun line =>
      (refs line).filter fun key => !dir.files.any fun f => f.name == key :=
    funext (reportMissing_eq _)
  rw [hreport, ← List.filter_flatMap, templateLines, hrefs, List.filter_eq_nil_iff]
  refine forall₂_congr fun key hkey => ?_
  rw [← dir.any_name_iff (isVarName_of_mem_refs hkey), Bool.not_eq_true, Bool.not_eq_false']

theorem cmdRender_error (h : ¬ dir.Provides (refs (template.filter (· ≠ 0)))) :
    (cmdRender dir.files template).toOption = none := by
  unfold cmdRender
  dsimp only
  rw [if_pos fun hnil => h ((dir.reported_eq_nil_iff template).mp hnil)]
  rfl

/-- What the script writes has no byte of zero. -/
theorem cmdRender_ok (h : dir.Provides (refs (template.filter (· ≠ 0)))) :
    ∃ content, (cmdRender dir.files template).toOption = some content ∧ 0 ∉ content := by
  unfold cmdRender
  dsimp only
  rw [if_neg (not_not.mpr ((dir.reported_eq_nil_iff template).mpr h))]
  refine ⟨_, rfl, ?_⟩
  have hlines : ∀ line ∈ (templateLines template).map (renderLine dir.files), 0 ∉ line := by
    intro line hline
    obtain ⟨raw, hraw, rfl⟩ := List.mem_map.mp hline
    exact notMem_renderLine dir.files (notMem_templateLinesFrom List.not_mem_nil hraw)
  have hwritten := notMem_writeLines true hlines
  split
  · rw [List.mem_append, not_or]
    exact ⟨hwritten, by decide⟩
  · exact hwritten

/-- Without bytes of zero and without a value that is filled in twice the script writes the template
as one pass fills it. -/
theorem cmdRender_eq (hzero : 0 ∉ template) (h : NotReexpanded dir template)
    (hkeys : dir.Provides (refs (template.filter (· ≠ 0)))) :
    (cmdRender dir.files template).toOption =
      some (fill (valueOf dir.credentials) (pieces template)) := by
  have hfill : writeLines true ((templateLines template).map (renderLine dir.files)) ++
      (if templateLines template ≠ [] && !missingFinalNewline template then [newline] else []) =
        fill (valueOf dir.credentials) (pieces template) :=
    writeLines_templateLinesFrom List.not_mem_nil List.not_mem_nil hzero
      fun line hline => dir.renderLine_eq (h line hline)
  unfold cmdRender
  dsimp only
  rw [if_neg (not_not.mpr ((dir.reported_eq_nil_iff template).mpr hkeys)), ← hfill]
  split
  · rfl
  · rw [List.append_nil]
    rfl

/-- The binary accepts a template. -/
def Accepts : Prop :=
  isUtf8 template = true ∧ (∀ cred ∈ dir.credentials, isUtf8 cred.bytes = true) ∧
    dir.Provides (refs template)

theorem loadCredentials_perm : (loadCredentials dir.files).Perm dir.credentials :=
  List.perm_insertionSort _ _

theorem render_toOption (h : isUtf8 template = true)
    (hcreds : ∀ cred ∈ dir.credentials, isUtf8 cred.bytes = true) :
    (render dir.files template).toOption =
      (renderTemplate template (valueOf dir.credentials)).toOption := by
  have hperm := dir.loadCredentials_perm
  have hstrings := credentialStrings_toOption (loadCredentials dir.files)
  rw [if_pos fun cred hcred => hcreds cred (hperm.mem_iff.mp hcred)] at hstrings
  have hvalues := valueOf_perm hperm.symm dir.distinct_credentials
  unfold render
  rw [if_pos h]
  cases hload : credentialStrings (loadCredentials dir.files) with
  | error e => rw [hload] at hstrings; cases hstrings
  | ok creds =>
    rw [hload] at hstrings
    cases hstrings
    dsimp only
    rw [← hvalues]
    cases renderTemplate template (valueOf dir.credentials) <;> rfl

theorem render_eq (h : dir.Accepts template) :
    (render dir.files template).toOption =
      some (fill (valueOf dir.credentials) (pieces template)) := by
  rw [dir.render_toOption template h.1 h.2.1, renderTemplate_toOption]
  exact if_pos h.2.2

theorem render_error (h : ¬ dir.Accepts template) : (render dir.files template).toOption = none := by
  by_cases htext : isUtf8 template = true
  · by_cases hcreds : ∀ cred ∈ dir.credentials, isUtf8 cred.bytes = true
    · rw [dir.render_toOption template htext hcreds, renderTemplate_toOption]
      exact if_neg fun hkeys => h ⟨htext, hcreds, hkeys⟩
    · have hstrings := credentialStrings_toOption (loadCredentials dir.files)
      rw [if_neg fun hall => hcreds fun cred hcred =>
        hall cred (dir.loadCredentials_perm.mem_iff.mpr hcred)] at hstrings
      unfold render
      rw [if_pos htext]
      cases hload : credentialStrings (loadCredentials dir.files) with
      | error e => rfl
      | ok creds => rw [hload] at hstrings; cases hstrings
  · unfold render
    rw [if_neg htext]
    rfl

/-- The checks before the rendering come out alike. -/
def SameChecks : Prop :=
  (dir.Provides (refs (template.filter (· ≠ 0))) →
    0 ∉ template ∧ isUtf8 template = true ∧ ∀ cred ∈ dir.credentials, isUtf8 cred.bytes = true) ∧
  (¬ dir.Provides (refs (template.filter (· ≠ 0))) → ¬ dir.Accepts template)

theorem filter_eq_of_notMem {template : Raw} (hzero : 0 ∉ template) :
    template.filter (· ≠ 0) = template := by
  refine List.filter_eq_self.mpr fun b hb => decide_eq_true ?_
  rintro rfl
  exact hzero hb

/-- A byte of zero in the template is in what the binary writes. -/
theorem mem_fill_of_mem (h : 0 ∈ template) :
    0 ∈ fill (valueOf dir.credentials) (pieces template) :=
  List.mem_flatMap.mpr ⟨.lit 0, lit_mem_pieces (by decide) (by decide) h, List.mem_cons_self⟩

/-- The renderers agree when their checks come out alike and, where both render, no value brings
about a placeholder; and they agree nowhere else on the checks. -/
theorem renderers_agree :
    (dir.SameChecks template →
      (dir.Provides (refs (template.filter (· ≠ 0))) → NotReexpanded dir template) →
        Agree (cmdRender dir.files template) (render dir.files template)) ∧
      (Agree (cmdRender dir.files template) (render dir.files template) →
        dir.SameChecks template) := by
  unfold Agree
  by_cases hkeys : dir.Provides (refs (template.filter (· ≠ 0)))
  · obtain ⟨content, hcontent, hfree⟩ := dir.cmdRender_ok template hkeys
    constructor
    · intro hsame hinert
      obtain ⟨hzero, htext, hcreds⟩ := hsame.1 hkeys
      have haccepts : dir.Accepts template :=
        ⟨htext, hcreds, filter_eq_of_notMem hzero ▸ hkeys⟩
      rw [dir.cmdRender_eq template hzero (hinert hkeys) hkeys, dir.render_eq template haccepts]
    · intro hagree
      refine ⟨fun _ => ?_, fun hnot => absurd hkeys hnot⟩
      by_cases haccepts : dir.Accepts template
      · rw [hcontent, dir.render_eq template haccepts, Option.some.injEq] at hagree
        exact ⟨fun hzero => hfree (hagree ▸ dir.mem_fill_of_mem template hzero), haccepts.1,
          haccepts.2.1⟩
      · rw [hcontent, dir.render_error template haccepts] at hagree
        cases hagree
  · rw [dir.cmdRender_error template hkeys]
    constructor
    · intro hsame _
      rw [dir.render_error template (hsame.2 hkeys)]
    · intro hagree
      refine ⟨fun hall => absurd hall hkeys, fun _ haccepts => ?_⟩
      rw [dir.render_eq template haccepts] at hagree
      cases hagree

/-- Two credentials. The value of the first one ends in a dollar, and that of the second one begins
with a brace. -/
def twoCredentials : CredentialDir where
  files := [⟨[0x41], [0x31, 0x24]⟩, ⟨[0x42], [0x7b, 0x41, 0x7d]⟩]
  distinct := by decide
  nulFree := by decide

/-- A line with both, and an empty one. -/
def twoLines : Raw := placeholder [0x41] ++ [0x20] ++ placeholder [0x42] ++ [newline, newline]

theorem renderers_agree_two_lines :
    Agree (cmdRender twoCredentials.files twoLines) (render twoCredentials.files twoLines) := by
  have hrefs : refs (twoLines.filter (· ≠ 0)) = [[0x41], [0x42]] := by decide +kernel
  have hkeys : twoCredentials.Provides [[0x41], [0x42]] := by
    unfold Provides
    decide +kernel
  have hinert : NotReexpanded twoCredentials twoLines := by
    unfold NotReexpanded
    decide +kernel
  refine (renderers_agree twoCredentials twoLines).1 ⟨fun _ => ?_, fun hnot => ?_⟩ fun _ => hinert
  · exact ⟨by decide +kernel, by decide +kernel, by decide +kernel⟩
  · exact absurd (hrefs ▸ hkeys) hnot

/-- The value of the first credential is the placeholder of the second one. -/
def nestedCredentials : CredentialDir where
  files := [⟨[0x41], placeholder [0x42]⟩, ⟨[0x42], [0x78]⟩]
  distinct := by decide
  nulFree := by decide

theorem renderers_disagree : ¬ ∀ (dir : CredentialDir) (template : Raw),
    Agree (cmdRender dir.files template) (render dir.files template) := by
  intro h
  have hnested := h nestedCredentials (placeholder [0x41])
  have hdiffer : (cmdRender nestedCredentials.files (placeholder [0x41])).toOption ≠
      (render nestedCredentials.files (placeholder [0x41])).toOption := by decide +kernel
  exact hdiffer hnested

end CredentialDir
end Shellflow
