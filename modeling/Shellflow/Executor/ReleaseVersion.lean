import Shellflow.Executor.Release

/-! Whether a release step comes to rest: the installed version is the first three numbers in a row of
what the binary prints, and the version of a tag is all of it. -/
namespace Shellflow.Release
open AndOr Leftmost

section Tags
variable {t : Text} {machine : Machine}

theorem isTag_redirectTag (line : Text) : redirectTag line = [] ∨ isTag (redirectTag line) = true := by
  unfold redirectTag
  dsimp only
  split
  · rename_i htag
    exact .inr (Bool.and_eq_true_iff.mp htag).1
  · exact .inl rfl

theorem isTag_tagField {s : Text} (h : tagField s = some t) : isTag t = true := by
  unfold tagField at h
  obtain ⟨rest, -, h⟩ := Option.bind_eq_some_iff.mp h
  split at h
  · split at h
    · dsimp only at h
      split at h
      · rename_i htag
        cases h
        exact (Bool.and_eq_true_iff.mp htag).1
      · cases h
    · cases h
  · cases h

theorem isTag_apiTag (page : Text) : apiTag page = [] ∨ isTag (apiTag page) = true := by
  unfold apiTag
  cases h : (textLines page).findSome? fun line => line.tails.reverse.findSome? tagField with
  | none => exact .inl rfl
  | some tag =>
    obtain ⟨line, -, hline⟩ := List.exists_of_findSome?_eq_some h
    obtain ⟨s, -, hs⟩ := List.exists_of_findSome?_eq_some hline
    exact .inr (isTag_tagField hs)

/-- Every resolved tag is a letter, a digit, and then digits and dots. -/
theorem isTag_sfwLatestTag (machine : Machine) :
    sfwLatestTag machine = [] ∨ isTag (sfwLatestTag machine) = true := by
  unfold sfwLatestTag
  dsimp only
  split
  · exact isTag_redirectTag _
  · exact isTag_apiTag _

end Tags

section Versions
variable {release : ReleaseStep} {machine : Machine} {s version : Text}

/-- The binary prints the text, perhaps with the letter in front. -/
def Answers (release : ReleaseStep) (machine : Machine) (s : Text) : Prop :=
  probeOutput release machine = some s ∨ probeOutput release machine = some ('v' :: s)

def IsVersionText (s : Text) : Prop := ∀ c ∈ s, isDigit c = true ∨ c = '.'

theorem isVersionText_of_all (h : (s.all fun c => isDigit c || c == '.') = true) :
    IsVersionText s := by
  intro c hc
  have hchar := List.all_eq_true.mp h c hc
  rwa [Bool.or_eq_true, beq_iff_eq] at hchar

theorem stripV_of_notMem (h : 'v' ∉ s) : stripV s = s := by
  unfold stripV
  split
  · exact absurd List.mem_cons_self h
  · rfl

theorem mem_firstTriple {as : List Text} (h : firstTriple as = some s) :
    ∀ c ∈ s, c = '.' ∨ ∃ a ∈ as, c ∈ a := by
  induction as with
  | nil => cases h
  | cons a as ih =>
    cases as with
    | nil => cases h
    | cons b as =>
      cases as with
      | nil => cases h
      | cons d ds =>
        rw [firstTriple] at h
        split at h
        · cases h
          intro c hc
          simp only [dotted_cons_cons, dotted_singleton, List.mem_append, List.mem_cons] at hc
          rcases hc with hc | hc | hc | hc | hc
          · exact .inr ⟨a, by simp, hc⟩
          · exact .inl hc
          · exact .inr ⟨b, by simp, hc⟩
          · exact .inl hc
          · exact .inr ⟨d, by simp, hc⟩
        · intro c hc
          rcases ih h c hc with hdot | ⟨e, he, hce⟩
          · exact .inl hdot
          · exact .inr ⟨e, List.mem_cons_of_mem a he, hce⟩

theorem letter_notMem_firstTriple (hs : IsVersionText s) {w : Text}
    (h : firstTriple (Leftmost.numbers s) = some w) : 'v' ∉ w := by
  intro hmem
  rcases mem_firstTriple h 'v' hmem with hdot | ⟨a, ha, hletter⟩
  · cases hdot
  · cases numbers_digits hs a ha 'v' hletter

theorem textLines_of_notMem (h : '\n' ∉ s) : textLines s = [s] := List.splitOn_eq_singleton h

/-- The probe finds the first three numbers in a row. -/
theorem stripV_sfwProbe (hanswer : Answers release machine s) (hs : IsVersionText s) :
    stripV (sfwProbe release machine) = (firstTriple (Leftmost.numbers s)).getD [] := by
  have hline : '\n' ∉ s := by
    intro hmem
    rcases hs '\n' hmem with hdigit | hdot
    · cases hdigit
    · cases hdot
  have hdigits := numbers_digits hs
  have hplain : ∀ w : Option Text, w = firstTriple (Leftmost.numbers s) →
      stripV (w.getD []) = (firstTriple (Leftmost.numbers s)).getD [] := by
    rintro w rfl
    cases hfirst : firstTriple (Leftmost.numbers s) with
    | none => rfl
    | some w => exact stripV_of_notMem (letter_notMem_firstTriple hs hfirst)
  rcases hanswer with hread | hread
  · have hfound := leftmost_dotted hdigits
    rw [dotted_numbers] at hfound
    rw [sfwProbe, hread]
    simp only [textLines_of_notMem hline, List.findSome?_singleton]
    exact hplain _ hfound
  · have hletter : '\n' ∉ 'v' :: s := by
      intro hmem
      rcases List.mem_cons.mp hmem with heq | hmem
      · cases heq
      · exact hline hmem
    have hfound := leftmost_letter hdigits
    rw [dotted_numbers] at hfound
    rw [sfwProbe, hread]
    simp only [textLines_of_notMem hletter, List.findSome?_singleton]
    rcases hfound with hfound | hfound
    · rw [hfound]
      cases hfirst : firstTriple (Leftmost.numbers s) with
      | none => rfl
      | some w => rfl
    · exact hplain _ hfound

theorem version_ne_nil (htag : sfwLatestTag machine = 'v' :: version) : version ≠ [] := by
  rintro rfl
  rcases isTag_sfwLatestTag machine with hnil | htrue
  · rw [htag] at hnil
    cases hnil
  · rw [htag] at htrue
    cases htrue

/-- The comparison finds the versions equal when the first three numbers in a row are the version of
the tag. -/
theorem verdict_upToDate_iff (htag : sfwLatestTag machine = 'v' :: version)
    (hanswer : Answers release machine s) (hs : IsVersionText s) :
    verdict release machine = .upToDate ↔ firstTriple (Leftmost.numbers s) = some version := by
  have hne : sfwLatestTag machine ≠ [] := by
    rw [htag]
    exact List.cons_ne_nil _ _
  have hversion : stripV (sfwLatestTag machine) = version := by rw [htag, stripV]
  have hprobe := stripV_sfwProbe hanswer hs
  have hsome : (sfwProbe release machine ≠ [] ∧ stripV (sfwProbe release machine) = version) ↔
      firstTriple (Leftmost.numbers s) = some version := by
    rw [hprobe]
    constructor
    · rintro ⟨-, heq⟩
      cases hfirst : firstTriple (Leftmost.numbers s) with
      | none =>
        rw [hfirst] at heq
        exact absurd heq.symm (version_ne_nil htag)
      | some w =>
        rw [hfirst] at heq
        exact congrArg some heq
    · intro hfirst
      refine ⟨fun hnil => version_ne_nil htag ?_, by rw [hfirst]; rfl⟩
      rw [hnil, hfirst] at hprobe
      exact hprobe.symm
  rw [verdict, if_neg hne, hversion, ← hsome]
  split
  · rename_i hboth
    exact ⟨fun _ => hboth, fun _ => rfl⟩
  · rename_i hboth
    exact ⟨nofun, fun h => absurd h hboth⟩

end Versions

section Said
variable {release : ReleaseStep} {machine : Machine} {s version : Text}

/-- The line that reports no update is not among these. -/
def Silent (said : List Text) : Prop := ∀ l ∈ said, l.head? ≠ some 'a'

theorem upToDateLine_notMem {said : List Text} (h : Silent said) : upToDateLine ∉ said :=
  fun hmem => h upToDateLine hmem rfl

theorem Silent.concat {said : List Text} (h : Silent said) {l : Text} (hl : l.head? ≠ some 'a') :
    Silent (said ++ [l]) := by
  intro l' hl'
  rcases List.mem_append.mp hl' with hmem | hmem
  · exact h l' hmem
  · rw [List.mem_singleton.mp hmem]
    exact hl

theorem head_append {a b : Text} {c d : Char} (h : a.head? = some c) (hne : c ≠ d) :
    (a ++ b).head? ≠ some d := by
  rw [List.head?_append, h, Option.some_or, Ne, Option.some.injEq]
  exact hne

theorem head_versionsLine : (versionsLine release machine).head? ≠ some 'a' := by
  unfold versionsLine
  rw [List.append_assoc, List.append_assoc]
  exact head_append (c := 'i') (by decide) (by decide)

theorem head_updatingLine (tag : Text) : (updatingLine release tag).head? ≠ some 'a' := by
  unfold updatingLine
  rw [List.append_assoc, List.append_assoc, List.append_assoc]
  exact head_append (c := 'u') (by decide) (by decide)

theorem head_installedLine (e : Entry) : (installedLine e).head? ≠ some 'a' :=
  head_append (c := 'i') (by decide) (by decide)

theorem said_cpFile (e : Entry) (p : Progress) : (cpFile machine e p).state.said = p.said := by
  unfold cpFile
  split
  · rfl
  · split <;> rfl
  · split <;> rfl

theorem said_mvFile (e : Entry) (p : Progress) : (mvFile machine e p).state.said = p.said := by
  unfold mvFile
  split
  · rfl
  · split <;> rfl

theorem said_chmodFile (e : Entry) (p : Progress) : (chmodFile machine e p).state.said = p.said := by
  unfold chmodFile
  split <;> rfl

theorem silent_installFile (e : Entry) {p : Progress} (h : Silent p.said) :
    Silent (installFile machine e p).state.said := by
  have hcopied := @said_cpFile machine e p
  have hmoved := @said_mvFile machine e (cpFile machine e p).state
  have hchanged := @said_chmodFile machine e
    (mvFile machine e (cpFile machine e p).state).state
  rw [installFile_state]
  dsimp only
  split
  · split
    · split
      · split
        · rw [counted, hchanged, hmoved, hcopied]
          exact h.concat (head_installedLine e)
        · rwa [hchanged, hmoved, hcopied]
      · rwa [hmoved, hcopied]
    · rwa [hcopied]
  · exact h

theorem silent_installAll (entries : List Entry) {p : Progress} (h : Silent p.said) :
    Silent (installAll machine entries p).said := by
  unfold installAll
  generalize globbed entries = listed
  induction listed generalizing p with
  | nil => exact h
  | cons e listed ih => exact ih (silent_installFile e h)

theorem silent_update (release : ReleaseStep) (machine : Machine) (tag : Text) :
    Silent (update release machine tag).said := by
  have hstart : Silent [versionsLine release machine, updatingLine release tag] :=
    List.forall_mem_cons.mpr ⟨head_versionsLine, List.forall_mem_singleton.mpr (head_updatingLine tag)⟩
  unfold update
  dsimp only
  split
  · exact hstart
  · split
    · exact hstart.concat (by decide)
    · split
      · exact hstart.concat (by decide)
      · rename_i archive _
        have hall := @silent_installAll machine archive.entries
          ⟨machine.files, 0, [versionsLine release machine, updatingLine release tag]⟩ hstart
        split
        · exact hall.concat (by decide)
        · exact hall

/-- The run reports that it is up to date exactly when the comparison says so. -/
theorem upToDateLine_mem_iff (release : ReleaseStep) (machine : Machine) :
    upToDateLine ∈ (releaseCommand release machine).said ↔ verdict release machine = .upToDate := by
  unfold releaseCommand
  cases verdict release machine with
  | skipped =>
    have hsilent : Silent [versionsLine release machine, unresolvedLine] :=
      List.forall_mem_cons.mpr ⟨head_versionsLine, List.forall_mem_singleton.mpr (by decide)⟩
    exact ⟨fun hmem => absurd hmem (upToDateLine_notMem hsilent), nofun⟩
  | upToDate => exact ⟨fun _ => rfl, fun _ => List.mem_cons_of_mem _ List.mem_cons_self⟩
  | update tag =>
    exact ⟨fun hmem => absurd hmem (upToDateLine_notMem (silent_update release machine tag)), nofun⟩

theorem downloads_of_upToDate (h : verdict release machine = .upToDate) :
    (releaseCommand release machine).downloads = [] := by
  rw [releaseCommand, h]

/-- For the version that is installed and the version of the newest tag: equal versions are reported and
nothing is downloaded, and different versions are not reported, exactly when the tag has three numbers
and no more, or when the first three numbers of a different version are not those of the tag. -/
theorem converges_iff (htag : sfwLatestTag machine = 'v' :: version)
    (hanswer : Answers release machine s) (hs : IsVersionText s) :
    ((s = version → upToDateLine ∈ (releaseCommand release machine).said ∧
        (releaseCommand release machine).downloads = []) ∧
      (s ≠ version → upToDateLine ∉ (releaseCommand release machine).said)) ↔
    (s = version ∧ IsTriple (Leftmost.numbers version)) ∨
      (s ≠ version ∧ firstTriple (Leftmost.numbers s) ≠ some version) := by
  have hreported := (upToDateLine_mem_iff release machine).trans
    (verdict_upToDate_iff htag hanswer hs)
  have htriple : firstTriple (Leftmost.numbers version) = some version ↔
      IsTriple (Leftmost.numbers version) := by
    have hiff := @firstTriple_dotted_iff (Leftmost.numbers version)
    rwa [dotted_numbers] at hiff
  by_cases heq : s = version
  · subst heq
    constructor
    · intro h
      exact .inl ⟨rfl, htriple.mp (hreported.mp (h.1 rfl).1)⟩
    · rintro (⟨-, h⟩ | ⟨hne, -⟩)
      · refine ⟨fun _ => ?_, fun hne => absurd rfl hne⟩
        have hmem := hreported.mpr (htriple.mpr h)
        exact ⟨hmem, downloads_of_upToDate ((upToDateLine_mem_iff release machine).mp hmem)⟩
      · exact absurd rfl hne
  · constructor
    · intro h
      exact .inr ⟨heq, fun hfirst => h.2 heq (hreported.mpr hfirst)⟩
    · rintro (⟨hsame, -⟩ | ⟨-, hfirst⟩)
      · exact absurd hsame heq
      · exact ⟨fun hsame => absurd hsame heq, fun _ hmem => hfirst (hreported.mp hmem)⟩

/-- A binary that knows `--version`, and the redirect of the newest tag. -/
def answering (tag output : String) : Machine where
  redirect := ("HTTP/2 302\r\nlocation: https://github.com/o/r/releases/tag/" ++ tag ++ "\r\n\r\n").toList
  api := []
  answers flag := if flag = "--version" then some (output ++ "\n").toList else none
  command := ([], 0)
  mktemp := true
  download _ := true
  extracted := some ⟨[], List.nodup_nil⟩
  copy _ := .done true
  rename _ := true
  chmod _ := true
  files _ := none

def plainRelease : ReleaseStep :=
  ⟨none, ⟨"api", 1⟩, "o/r", "/opt/r/bin/r", "r-\x7btag\x7d.tar.gz", "/opt/r/bin", none, none⟩

theorem converges_three_numbers :
    sfwLatestTag (answering "v1.2.3" "1.2.3") = 'v' :: ['1', '.', '2', '.', '3'] ∧
      upToDateLine ∈ (releaseCommand plainRelease (answering "v1.2.3" "1.2.3")).said := by
  have htag : sfwLatestTag (answering "v1.2.3" "1.2.3") = 'v' :: ['1', '.', '2', '.', '3'] := by
    decide +kernel
  have hread : probeOutput plainRelease (answering "v1.2.3" "1.2.3") = some ['1', '.', '2', '.', '3'] := by
    decide +kernel
  have hs : IsVersionText ['1', '.', '2', '.', '3'] := isVersionText_of_all (by decide)
  have htriple : IsTriple (Leftmost.numbers ['1', '.', '2', '.', '3']) := by decide +kernel
  exact ⟨htag, (((converges_iff htag (.inl hread) hs).mpr (.inl ⟨rfl, htriple⟩)).1 rfl).1⟩

/-- A tag of four numbers is downloaded again on every run. -/
theorem four_numbers_downloaded :
    ¬ ∀ (release : ReleaseStep) (machine : Machine) (s version : Text),
      sfwLatestTag machine = 'v' :: version → Answers release machine s → IsVersionText s →
        (s = version → upToDateLine ∈ (releaseCommand release machine).said ∧
          (releaseCommand release machine).downloads = []) ∧
        (s ≠ version → upToDateLine ∉ (releaseCommand release machine).said) := by
  intro h
  have htag : sfwLatestTag (answering "v1.2.3.4" "1.2.3.4") =
      'v' :: ['1', '.', '2', '.', '3', '.', '4'] := by decide +kernel
  have hread : probeOutput plainRelease (answering "v1.2.3.4" "1.2.3.4") =
      some ['1', '.', '2', '.', '3', '.', '4'] := by decide +kernel
  have hs : IsVersionText ['1', '.', '2', '.', '3', '.', '4'] := isVersionText_of_all (by decide)
  have hreported := ((h plainRelease _ _ _ htag (.inl hread) hs).1 rfl).1
  have hverdict : verdict plainRelease (answering "v1.2.3.4" "1.2.3.4") ≠ .upToDate := by
    decide +kernel
  exact hverdict ((upToDateLine_mem_iff plainRelease _).mp hreported)

end Said

end Shellflow.Release
