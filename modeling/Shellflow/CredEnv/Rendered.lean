import Shellflow.CredEnv.Template

/-! What the template renderer reports and what it writes, said of the places where a `${KEY}`
stands in the text. -/
namespace Shellflow
open Slice Splice

/-- A placeholder of the key stands at the offset. -/
def OccursAt (key : Raw) (pos : Nat) (content : Raw) : Prop :=
  isVarName key = true ∧ placeholder key <+: content.drop pos

def FirstAt (key : Raw) (pos : Nat) (content : Raw) : Prop :=
  OccursAt key pos content ∧ ∀ earlier < pos, ¬ OccursAt key earlier content

/-- The report has every key without a value, once and in order, each at its first placeholder. -/
structure ReportsMissing (content : Raw) (values : Raw → Option Raw) (missing : List MissingKey) :
    Prop where
  nonempty : missing ≠ []
  sorted : missing.Pairwise fun a b => a.key < b.key
  complete : ∀ m, m ∈ missing ↔ values m.key = none ∧ FirstAt m.key m.offset content

/-- A literal segment and the key of the placeholder behind it. -/
structure Stretch where
  literal : Raw
  key : Raw

def Literal (text : Raw) : Prop := ∀ key, isVarName key = true → ¬ placeholder key <:+: text

/-- A text cut at its placeholders. -/
structure Tiling (content : Raw) where
  stretches : List Stretch
  rest : Raw
  text : content = stretches.flatMap (fun s => s.literal ++ placeholder s.key) ++ rest
  names : ∀ s ∈ stretches, isVarName s.key = true
  literals : ∀ s ∈ stretches, Literal s.literal
  literal_rest : Literal rest

/-- The literal segments with the values in between. -/
def Tiling.fill {content : Raw} (tiling : Tiling content) (values : Raw → Option Raw) : Raw :=
  tiling.stretches.flatMap (fun s => s.literal ++ (values s.key).getD []) ++ tiling.rest

theorem head?_of_placeholder {key s : Raw} (h : placeholder key <+: s) : s.head? = some 0x24 := by
  obtain ⟨more, rfl⟩ := h
  rfl

theorem occursAt_ref {key other rest : Raw} {pos : Nat} (hname : isVarName other = true) :
    OccursAt key pos (placeholder other ++ rest) ↔
      pos = 0 ∧ key = other ∨ (placeholder other).length ≤ pos ∧
        OccursAt key (pos - (placeholder other).length) rest := by
  by_cases hlater : (placeholder other).length ≤ pos
  · have hpos : pos ≠ 0 := by
      rw [length_placeholder] at hlater
      omega
    simp [OccursAt, List.drop_append, List.drop_of_length_le hlater, hpos, hlater]
  · simp only [hlater, false_and, or_false]
    constructor
    · intro h
      have hhead := head?_of_placeholder h.2
      rw [List.head?_drop, List.getElem?_append_left (Nat.lt_of_not_le hlater)] at hhead
      cases pos with
      | zero =>
        obtain ⟨more, hmore⟩ := h.2
        have href := refAt_placeholder hname rest
        rw [List.drop_zero] at hmore
        rw [← hmore, refAt_placeholder h.1, Option.some_inj] at href
        exact ⟨rfl, href⟩
      | succ pos =>
        -- behind its first byte a placeholder has no dollar
        have hmem : (0x24 : UInt8) ∈ 0x7b :: (other ++ [closer]) := List.mem_of_getElem? hhead
        exact absurd hmem (dollar_notMem hname)
    · rintro ⟨rfl, rfl⟩
      exact ⟨hname, List.prefix_append _ _⟩

theorem occursAt_lit {key s : Raw} {b : UInt8} {pos : Nat} (href : refAt (b :: s) = none) :
    OccursAt key pos (b :: s) ↔ 1 ≤ pos ∧ OccursAt key (pos - 1) s := by
  cases pos with
  | zero =>
    refine ⟨fun ⟨hname, more, hmore⟩ => ?_, fun h => absurd h.1 (Nat.not_succ_le_zero 0)⟩
    rw [List.drop_zero] at hmore
    rw [← hmore, refAt_placeholder hname] at href
    cases href
  | succ pos => simp [OccursAt]

/-- The scanner reports the places of the placeholders and no other. -/
theorem mem_locate {p : Placeholder} {start : Nat} {content : Raw} :
    p ∈ locate start (pieces content) ↔
      start ≤ p.start ∧ OccursAt p.key (p.start - start) content ∧
        p.stop = p.start + (placeholder p.key).length := by
  induction content using piece_induction generalizing start with
  | nil =>
    refine ⟨fun h => absurd h List.not_mem_nil, fun ⟨_, ⟨_, h⟩, _⟩ => ?_⟩
    rw [List.drop_nil, List.prefix_nil] at h
    exact absurd h (placeholder_ne_nil _)
  | ref key rest hname ih =>
    rw [pieces_ref hname, locate, List.mem_cons, ih, occursAt_ref hname]
    obtain ⟨k, pos, stop⟩ := p
    simp only [Placeholder.mk.injEq]
    constructor
    · rintro (⟨rfl, rfl, rfl⟩ | ⟨hle, hocc, hstop⟩)
      · exact ⟨Nat.le_refl _, .inl ⟨Nat.sub_self _, rfl⟩, rfl⟩
      · refine ⟨by omega, .inr ⟨by omega, ?_⟩, hstop⟩
        rwa [Nat.sub_sub]
    · rintro ⟨hle, ⟨hzero, rfl⟩ | ⟨hlater, hocc⟩, hstop⟩
      · have hpos : pos = start := by omega
        exact .inl ⟨rfl, hpos, hpos ▸ hstop⟩
      · refine .inr ⟨by omega, ?_, hstop⟩
        rwa [Nat.sub_sub] at hocc
  | lit b s href ih =>
    rw [pieces_lit href, locate, ih, occursAt_lit href]
    rw [← Nat.sub_sub]
    constructor
    · rintro ⟨hle, hocc, hstop⟩
      exact ⟨by omega, ⟨by omega, hocc⟩, hstop⟩
    · rintro ⟨hle, ⟨hlater, hocc⟩, hstop⟩
      exact ⟨by omega, hocc, hstop⟩

theorem mem_placeholders {p : Placeholder} {content : Raw} :
    p ∈ placeholders content ↔
      OccursAt p.key p.start content ∧ p.stop = p.start + (placeholder p.key).length := by
  rw [placeholders_eq, mem_locate, Nat.sub_zero]
  exact and_iff_right (Nat.zero_le _)

/-- They come in the order of the text. -/
theorem pairwise_locate (start : Nat) (l : List Piece) :
    (∀ p ∈ locate start l, start ≤ p.start) ∧
      (locate start l).Pairwise fun p q => p.start < q.start := by
  induction l generalizing start with
  | nil => exact ⟨fun p hp => absurd hp List.not_mem_nil, .nil⟩
  | cons piece l ih =>
    cases piece with
    | lit b => exact ⟨fun p hp => Nat.le_of_succ_le ((ih _).1 p hp), (ih _).2⟩
    | ref key =>
      have hlen := length_placeholder key
      obtain ⟨hle, hsorted⟩ := ih (start + (placeholder key).length)
      have hlater : ∀ p ∈ locate (start + (placeholder key).length) l, start < p.start :=
        fun p hp => by
          have := hle p hp
          omega
      refine ⟨fun p hp => ?_, hsorted.cons hlater⟩
      cases List.mem_cons.mp hp with
      | inl hfirst => exact hfirst ▸ Nat.le_refl _
      | inr hrest => exact Nat.le_of_lt (hlater p hrest)

theorem FirstAt.unique {key content : Raw} {a b : Nat} (ha : FirstAt key a content)
    (hb : FirstAt key b content) : a = b := by
  have hba : ¬ a < b := fun h => hb.2 a h ha.1
  have hab : ¬ b < a := fun h => ha.2 b h hb.1
  omega

/-- The first placeholder of a key in the list is its first place in the text. -/
theorem find?_placeholders {key content : Raw} {pos : Nat} :
    ((placeholders content).find? fun p => p.key == key).map Placeholder.start = some pos ↔
      FirstAt key pos content := by
  have hfirst : ∀ p, (placeholders content).find? (fun p => p.key == key) = some p →
      FirstAt key p.start content := by
    intro p hp
    obtain ⟨hkey, before, after, hsplit, hbefore⟩ := List.find?_eq_some_iff_append.mp hp
    obtain rfl := eq_of_beq hkey
    have hsorted := (pairwise_locate 0 (pieces content)).2
    rw [← placeholders_eq, hsplit] at hsorted
    have hmem : p ∈ placeholders content := hsplit ▸ List.mem_append_right _ List.mem_cons_self
    refine ⟨(mem_placeholders.mp hmem).1, fun earlier hlt hocc => ?_⟩
    have hearlier : (⟨p.key, earlier, earlier + (placeholder p.key).length⟩ : Placeholder) ∈
        before ++ p :: after := hsplit ▸ mem_placeholders.mpr ⟨hocc, rfl⟩
    rw [List.mem_append, List.mem_cons] at hearlier
    obtain hin | hin | hin := hearlier
    · exact absurd (hbefore _ hin) (by simp)
    · rw [← hin] at hlt
      exact absurd hlt (Nat.lt_irrefl _)
    · have hlt' := List.rel_of_pairwise_cons (List.pairwise_append.mp hsorted).2.1 hin
      exact absurd hlt (Nat.lt_asymm hlt')
  constructor
  · intro h
    obtain ⟨p, hp, rfl⟩ := Option.map_eq_some_iff.mp h
    exact hfirst p hp
  · intro h
    have hmem : (⟨key, pos, pos + (placeholder key).length⟩ : Placeholder) ∈
        placeholders content := mem_placeholders.mpr ⟨h.1, rfl⟩
    have hfound : ((placeholders content).find? fun p => p.key == key).isSome := by
      rw [List.find?_isSome]
      exact ⟨_, hmem, beq_self_eq_true key⟩
    obtain ⟨p, hp⟩ := Option.isSome_iff_exists.mp hfound
    rw [hp, Option.map_some, (hfirst p hp).unique h]

theorem mem_missingKeys {values : Raw → Option Raw} {spans : List Placeholder} {m : MissingKey} :
    m ∈ missingKeys values spans ↔ values m.key = none ∧
      (spans.find? fun p => p.key == m.key).map Placeholder.start = some m.offset := by
  induction spans using List.reverseRecOn generalizing m with
  | nil => simp [missingKeys]
  | append_singleton spans p ih =>
    -- a key found before keeps its place, a new one is at the placeholder itself
    have hold : ∀ q, (spans.find? fun p => p.key == m.key) = some q →
        (m ∈ missingKeys values (spans ++ [p]) ↔ m ∈ missingKeys values spans) := by
      intro q hq
      rw [missingKeys_concat, pushMissing]
      split
      · rfl
      · split
        · rfl
        · next hvalue hnew =>
          refine List.mem_append.trans (or_iff_left fun hm => hnew ?_)
          rw [List.mem_singleton.mp hm] at hq
          have hknown : ⟨p.key, q.start⟩ ∈ missingKeys values spans :=
            ih.mpr ⟨Option.not_isSome_iff_eq_none.mp hvalue, by rw [hq]; rfl⟩
          exact List.any_eq_true.mpr ⟨_, hknown, beq_self_eq_true p.key⟩
    rw [List.find?_append]
    cases hfound : spans.find? fun p => p.key == m.key with
    | some q => rw [hold q hfound, ih, hfound, Option.some_or]
    | none =>
      have hnew : m ∉ missingKeys values spans := fun h => by
        have hfirst := (ih.mp h).2
        rw [hfound] at hfirst
        cases hfirst
      rw [missingKeys_concat, pushMissing, Option.none_or]
      by_cases hkey : p.key = m.key
      · have hunknown : ¬ ((missingKeys values spans).any fun k => k.key == p.key) = true := by
          intro hknown
          obtain ⟨k, hk, hsame⟩ := List.any_eq_true.mp hknown
          have hfirst := (ih.mp hk).2
          rw [eq_of_beq hsame, hkey, hfound] at hfirst
          cases hfirst
        rw [if_neg hunknown, hkey, List.find?_singleton, if_pos (beq_iff_eq.mpr hkey),
          Option.map_some, Option.some_inj]
        cases hvalue : values m.key with
        | some value => simp [hnew]
        | none =>
          obtain ⟨key, offset⟩ := m
          simp [hnew, eq_comm]
      · have hnone : ([p].find? fun p => p.key == m.key) = none := by simp [hkey]
        have hother : m ≠ ⟨p.key, p.start⟩ := fun h => hkey (h ▸ rfl)
        rw [hnone]
        split_ifs <;> simp [hnew, hother]

theorem nodup_missingKeys (values : Raw → Option Raw) (spans : List Placeholder) :
    ((missingKeys values spans).map MissingKey.key).Nodup := by
  induction spans using List.reverseRecOn with
  | nil => exact List.nodup_nil
  | append_singleton spans p ih =>
    rw [missingKeys_concat, pushMissing]
    split
    · exact ih
    · split
      · exact ih
      · next hnew =>
        rw [List.map_append, List.map_singleton]
        refine ih.append (List.nodup_singleton _) (List.disjoint_singleton.mpr fun hmem => hnew ?_)
        obtain ⟨m, hm, hkey⟩ := List.mem_map.mp hmem
        exact List.any_eq_true.mpr ⟨m, hm, beq_iff_eq.mpr hkey⟩

/-- The report is exact. -/
theorem reportsMissing {content : Raw} {values : Raw → Option Raw} {missing : List MissingKey}
    (h : renderTemplate content values = .error missing) :
    ReportsMissing content values missing := by
  unfold renderTemplate at h
  dsimp only at h
  split at h
  case isFalse => cases h
  case isTrue hsome =>
    injection h with h
    subst h
    refine ⟨fun hnil => hsome ?_, ?_, fun m => ?_⟩
    · rw [← List.length_eq_zero_iff, List.length_insertionSort, List.length_eq_zero_iff] at hnil
      exact hnil
    · have hle := List.pairwise_insertionSort (fun a b : MissingKey => a.key ≤ b.key)
        (missingKeys values (placeholders content))
      have hne : (List.insertionSort (fun a b : MissingKey => a.key ≤ b.key)
          (missingKeys values (placeholders content))).Pairwise fun a b => a.key ≠ b.key := by
        have hperm := (List.perm_insertionSort (fun a b : MissingKey => a.key ≤ b.key)
          (missingKeys values (placeholders content))).map MissingKey.key
        exact List.pairwise_map.mp (hperm.nodup_iff.mpr (nodup_missingKeys values _))
      exact hle.imp₂ (fun _ _ h => (List.le_iff_lt_or_eq.mp h).resolve_right) hne
    · rw [List.mem_insertionSort, mem_missingKeys, find?_placeholders]

theorem mem_templateKeys_iff {key content : Raw} :
    key ∈ templateKeys content ↔ ∃ pos, OccursAt key pos content := by
  rw [mem_templateKeys, mem_refs]
  constructor
  · rintro ⟨hname, before, after, hcontent⟩
    refine ⟨before.length, hname, ?_⟩
    rw [← hcontent, List.append_assoc, List.drop_left]
    exact List.prefix_append _ _
  · rintro ⟨pos, hname, hkey⟩
    exact ⟨hname, hkey.isInfix.trans (List.drop_suffix _ _).isInfix⟩

theorem renders_iff {content : Raw} {values : Raw → Option Raw} :
    (∃ out, renderTemplate content values = .ok out) ↔
      ∀ key ∈ templateKeys content, (values key).isSome := by
  have hresult := renderTemplate_toOption content values
  simp only [mem_templateKeys]
  cases h : renderTemplate content values with
  | error missing =>
    rw [h] at hresult
    split at hresult
    case isTrue => cases hresult
    case isFalse hall => simp [hall]
  | ok out =>
    rw [h] at hresult
    split at hresult
    case isTrue hall => exact ⟨fun _ => hall, fun _ => ⟨out, rfl⟩⟩
    case isFalse => cases hresult

theorem Literal.cons {b : UInt8} {s more : Raw} (href : refAt (b :: (s ++ more)) = none)
    (h : Literal s) : Literal (b :: s) := by
  intro key hname hinfix
  cases List.infix_cons_iff.mp hinfix with
  | inl hstart =>
    obtain ⟨tail, htail⟩ := hstart
    rw [← List.cons_append, ← htail, List.append_assoc, refAt_placeholder hname] at href
    cases href
  | inr hlater => exact h key hname hlater

theorem literal_nil : Literal [] := fun key _ h => placeholder_ne_nil key (List.infix_nil.mp h)

/-- The pieces give the segments, and filling them in gives the same text. -/
theorem exists_tiling {content : Raw} {values : Raw → Option Raw}
    (hvalues : ∀ key ∈ refs content, (values key).isSome) :
    ∃ tiling : Tiling content, (∀ s ∈ tiling.stretches, (values s.key).isSome) ∧
      fill values (pieces content) = tiling.fill values := by
  induction content using piece_induction with
  | nil =>
    exact ⟨⟨[], [], rfl, List.forall_mem_nil _, List.forall_mem_nil _, literal_nil⟩,
      List.forall_mem_nil _, rfl⟩
  | ref key rest hname ih =>
    rw [refs_ref hname, List.forall_mem_cons] at hvalues
    obtain ⟨⟨stretches, last, htext, hnames, hliterals, hlast⟩, hsome, hfill⟩ := ih hvalues.2
    obtain ⟨value, hvalue⟩ := Option.isSome_iff_exists.mp hvalues.1
    refine ⟨⟨⟨[], key⟩ :: stretches, last, ?_, List.forall_mem_cons.mpr ⟨hname, hnames⟩,
      List.forall_mem_cons.mpr ⟨literal_nil, hliterals⟩, hlast⟩,
      List.forall_mem_cons.mpr ⟨hvalues.1, hsome⟩, ?_⟩
    · rw [htext, List.flatMap_cons, List.nil_append, List.append_assoc]
    · rw [pieces_ref hname, fill_cons, hfill, Piece.text, hvalue]
      simp only [Tiling.fill, List.flatMap_cons, hvalue, List.nil_append, List.append_assoc]
      rfl
  | lit b s href ih =>
    rw [refs_lit href] at hvalues
    obtain ⟨⟨stretches, last, htext, hnames, hliterals, hlast⟩, hsome, hfill⟩ := ih hvalues
    rw [pieces_lit href, fill_cons, hfill]
    cases stretches with
    | nil =>
      rw [htext] at href
      exact ⟨⟨[], b :: last, congrArg (b :: ·) htext, hnames, hliterals,
        @Literal.cons b last [] (by rwa [List.append_nil]) hlast⟩, hsome, rfl⟩
    | cons first stretches =>
      rw [List.forall_mem_cons] at hnames hliterals hsome
      rw [htext, List.flatMap_cons, List.append_assoc, List.append_assoc] at href
      exact ⟨⟨⟨b :: first.literal, first.key⟩ :: stretches, last, congrArg (b :: ·) htext,
        List.forall_mem_cons.mpr hnames,
        List.forall_mem_cons.mpr ⟨hliterals.1.cons href, hliterals.2⟩, hlast⟩,
        List.forall_mem_cons.mpr hsome, rfl⟩

/-- The renderer reports exactly the keys without a value, or puts every value between the literal
segments as it is. -/
theorem renderTemplate_exact (content : Raw) (values : Raw → Option Raw) :
    (match renderTemplate content values with
      | .error missing => ReportsMissing content values missing
      | .ok out => ∃ tiling : Tiling content,
          (∀ s ∈ tiling.stretches, (values s.key).isSome) ∧ out = tiling.fill values) ∧
    ((∃ missing, renderTemplate content values = .error missing) ↔
      ∃ key pos, OccursAt key pos content ∧ values key = none) ∧
    ((∃ out, renderTemplate content values = .ok out) ↔
      ∀ key ∈ templateKeys content, (values key).isSome) := by
  have hresult := renderTemplate_toOption content values
  have hok : (∃ out, renderTemplate content values = .ok out) ↔
      ∀ key ∈ templateKeys content, (values key).isSome := renders_iff
  refine ⟨?_, ?_, hok⟩
  · cases h : renderTemplate content values with
    | error missing => exact reportsMissing h
    | ok out =>
      rw [h] at hresult
      split at hresult
      case isTrue hall =>
        obtain ⟨tiling, hsome, hfill⟩ := exists_tiling hall
        exact ⟨tiling, hsome, (Option.some_inj.mp hresult).trans hfill⟩
      case isFalse => cases hresult
  · have hfails : (∃ missing, renderTemplate content values = .error missing) ↔
        ¬ ∃ out, renderTemplate content values = .ok out := by
      cases renderTemplate content values <;> simp
    rw [hfails, hok]
    constructor
    · intro h
      obtain ⟨key, hkey, hnone⟩ : ∃ key ∈ templateKeys content, ¬ (values key).isSome := by
        simpa using h
      obtain ⟨pos, hocc⟩ := mem_templateKeys_iff.mp hkey
      exact ⟨key, pos, hocc, Option.not_isSome_iff_eq_none.mp hnone⟩
    · intro ⟨key, pos, hocc, hnone⟩ hall
      have hsome := hall key (mem_templateKeys_iff.mpr ⟨pos, hocc⟩)
      rw [hnone] at hsome
      cases hsome

end Shellflow
