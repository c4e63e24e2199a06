import Shellflow.Audit.FirstCandidate
import Shellflow.Lib.CharImages

/-! The scanners find a byte in a case-mapped copy and slice the line there. The two places agree
exactly when the text in front has as many bytes in the copy as in the line. -/
namespace Shellflow.Audit
open ServiceCheck Images

section Casing

def asciiUpper (c : Char) : Char := if 'a' ≤ c ∧ c ≤ 'z' then Char.ofNat (c.toNat - 32) else c

/-- An ASCII character has its ASCII case, another one none of the ASCII characters but letters. -/
def CaseOf (ascii : Char → Char) (c : Char) (u : Text) : Prop :=
  u ≠ [] ∧ (c.toNat < 128 → u = [ascii c]) ∧
    (128 ≤ c.toNat → ∀ d ∈ u, d.toNat < 128 → d.isAlpha = true)

/-- The case mappings of the character database, by the characters of a text; the image of one may
depend on the others. -/
structure Casing where
  lower : Text → List Text
  upper : Text → List Text
  lower_of : ∀ s, List.Forall₂ (CaseOf Str.asciiLower) s (lower s)
  upper_of : ∀ s, List.Forall₂ (CaseOf asciiUpper) s (upper s)

theorem flatten_of_ascii {ascii : Char → Char} {s : Text} {us : List Text}
    (h : List.Forall₂ (CaseOf ascii) s us) (hs : ∀ c ∈ s, c.toNat < 128) :
    us.flatten = s.map ascii := by
  induction h with
  | nil => rfl
  | cons hc hs' ih =>
    rw [List.forall_mem_cons] at hs
    rw [List.flatten_cons, hc.2.1 hs.1, ih hs.2]
    rfl

def Casing.mapping (k : Casing) : CaseMapping where
  lower s := String.ofList (k.lower s.toList).flatten
  upper s := String.ofList (k.upper s.toList).flatten
  lower_ascii s hs := congrArg String.ofList (flatten_of_ascii (k.lower_of s.toList) hs)
  upper_ascii s hs := congrArg String.ofList (flatten_of_ascii (k.upper_of s.toList) hs)

/-- The ASCII characters without a case. -/
def Caseless (c : Char) : Prop := c.toNat < 128 ∧ c.isAlpha = false

/-- A case mapping of ASCII keeps the letters letters and every other character. -/
def KeepsLetters (ascii : Char → Char) (c : Char) : Prop :=
  (c.isAlpha = true → (ascii c).isAlpha = true) ∧ (c.isAlpha = false → ascii c = c)

instance (ascii : Char → Char) (c : Char) : Decidable (KeepsLetters ascii c) :=
  inferInstanceAs (Decidable (_ ∧ _))

theorem maps_of_caseOf {ascii : Char → Char} {s : Text} {us : List Text}
    (hascii : ∀ n : Fin 128, KeepsLetters ascii (Char.ofNat n))
    (h : List.Forall₂ (CaseOf ascii) s us) : Maps Caseless s us := by
  have hkeeps : ∀ c : Char, c.toNat < 128 → KeepsLetters ascii c := fun c hc => by
    have hchar := hascii ⟨c.toNat, hc⟩
    rwa [Char.ofNat_toNat] at hchar
  refine h.imp fun c u hc => ⟨hc.1, fun hless => ?_, fun hcased d hd hless => ?_⟩
  · rw [hc.2.1 hless.1, (hkeeps c hless.1).2 hless.2]
  · by_cases hlt : c.toNat < 128
    · have halpha : c.isAlpha = true := Bool.of_not_eq_false fun hfalse => hcased ⟨hlt, hfalse⟩
      rw [hc.2.1 hlt, List.mem_singleton] at hd
      rw [hd] at hless
      cases ((hkeeps c hlt).1 halpha).symm.trans hless.2
    · have halpha := hc.2.2 (Nat.le_of_not_lt hlt) d hd hless.1
      cases halpha.symm.trans hless.2

theorem maps_lower (k : Casing) (s : Text) : Maps Caseless s (k.lower s) :=
  maps_of_caseOf (by decide +kernel) (k.lower_of s)

theorem maps_upper (k : Casing) (s : Text) : Maps Caseless s (k.upper s) :=
  maps_of_caseOf (by decide +kernel) (k.upper_of s)

end Casing

section Places

/-- The image of a front of the line. -/
def frontImage (images : List Text) (front : Text) : Text := (images.take front.length).flatten

variable (k : Casing) (line : String)

/-- The text behind the first scheme of the copy is sliced from the line where it stands there. -/
def UrlInStep : Prop :=
  ∀ pos, findBytes (k.mapping.lower line) "://" = some pos → ∃ front after,
    line.toList = front ++ "://".toList ++ after ∧
      byteLen (frontImage (k.lower line.toList) front) = pos ∧
      dropBytes line.toList (pos + 3) = some after

/-- The text in front of the first scheme has as many bytes in lower case. -/
def UrlEven : Prop :=
  ∀ front after, Str.splitOnceChars "://".toList line.toList = some (front, after) →
    byteLen (frontImage (k.lower line.toList) front) = byteLen front

/-- The front of the line whose image ends with the first occurrence of a key in the copy. -/
def EndsWithKey (key : String) (front : Text) : Prop :=
  ∃ pos, findBytes (k.mapping.upper line) key = some pos ∧
    byteLen (frontImage (k.upper line.toList) front) = pos + lenBytes key

/-- The text behind the first occurrence of a key is sliced from the line where it stands there. -/
def KeyInStep (key : String) : Prop :=
  ∀ pos, findBytes (k.mapping.upper line) key = some pos → ∃ front after,
    line.toList = front ++ after ∧ EndsWithKey k line key front ∧
      dropBytes line.toList (pos + lenBytes key) = some after

/-- The line up to the end of the first occurrence has as many bytes in upper case. -/
def KeyEven (key : String) : Prop :=
  ∀ front after, line.toList = front ++ after → EndsWithKey k line key front →
    byteLen (frontImage (k.upper line.toList) front) = byteLen front

/-- The text behind the first occurrence of a key is a leak. -/
def LeakInPlace (key : String) : Prop :=
  ∃ front after, line.toList = front ++ after ∧ EndsWithKey k line key front ∧ LeakRun after

/-- Every slice that is taken: those of the keys up to the first leak. -/
def LeaksInStep (keys : List String) : Prop :=
  ∀ front key rest, keys = front ++ key :: rest →
    leakUnder k.mapping line front = some false → KeyInStep k line key

def LeaksEven (keys : List String) : Prop :=
  ∀ front key rest, keys = front ++ key :: rest →
    (∀ other ∈ front, ¬ LeakInPlace k line other) → KeyEven k line key

end Places

section Alignment
variable {k : Casing} {line : String}

theorem byteLen_flatten_take_inj {us : List Text} (hne : ∀ u ∈ us, u ≠ []) {i j : Nat}
    (hi : i ≤ us.length) (hj : j ≤ us.length)
    (h : byteLen (us.take i).flatten = byteLen (us.take j).flatten) : i = j := by
  induction us generalizing i j with
  | nil => rw [Nat.le_zero.mp hi, Nat.le_zero.mp hj]
  | cons u us ih =>
    rw [List.forall_mem_cons] at hne
    have hpos : 0 < byteLen u := byteLen_pos hne.1
    cases i with
    | zero =>
      cases j with
      | zero => rfl
      | succ j =>
        rw [List.take_succ_cons, List.flatten_cons, byteLen_append, List.take_zero,
          List.flatten_nil, byteLen] at h
        omega
    | succ i =>
      cases j with
      | zero =>
        rw [List.take_succ_cons, List.flatten_cons, byteLen_append, List.take_zero,
          List.flatten_nil, byteLen] at h
        omega
      | succ j =>
        rw [List.take_succ_cons, List.take_succ_cons, List.flatten_cons, List.flatten_cons,
          byteLen_append, byteLen_append] at h
        exact congrArg (· + 1) (ih hne.2 (Nat.le_of_succ_le_succ hi) (Nat.le_of_succ_le_succ hj)
          (Nat.add_left_cancel h))

/-- A front is determined by the bytes of its image. -/
theorem front_unique {s front after front' after' : Text} {us : List Text}
    (h : Maps Caseless s us) (hs : s = front ++ after) (hs' : s = front' ++ after')
    (hlen : byteLen (frontImage us front) = byteLen (frontImage us front')) : front = front' := by
  have hle : ∀ {u v : Text}, s = u ++ v → u.length ≤ us.length := by
    rintro u v rfl
    rw [← h.length_eq, List.length_append]
    exact Nat.le_add_right _ _
  have hne : ∀ u ∈ us, u ≠ [] := fun u hu => by
    obtain ⟨c, hc⟩ := imageOf_of_mem h hu
    exact hc.1
  have hlength := byteLen_flatten_take_inj hne (hle hs) (hle hs') hlen
  exact List.append_inj_left (hs.symm.trans hs') hlength

theorem toList_lower (k : Casing) (line : String) :
    (k.mapping.lower line).toList = (k.lower line.toList).flatten := String.toList_ofList

theorem toList_upper (k : Casing) (line : String) :
    (k.mapping.upper line).toList = (k.upper line.toList).flatten := String.toList_ofList

theorem caseless_scheme : ∀ d ∈ "://".toList, Caseless d := by
  have hcolon : Caseless ':' := ⟨by decide, rfl⟩
  have hslash : Caseless '/' := ⟨by decide, rfl⟩
  intro d hd
  have hmem : d ∈ [':', '/', '/'] := hd
  rw [List.mem_cons, List.mem_pair, or_self] at hmem
  rcases hmem with rfl | rfl
  · exact hcolon
  · exact hslash

theorem findBytes_lower (k : Casing) (line : String) :
    findBytes (k.mapping.lower line) "://" =
      (Str.splitOnceChars "://".toList line.toList).map fun p =>
        byteLen (frontImage (k.lower line.toList) p.1) := by
  rw [findBytes_eq, toList_lower,
    splitOnceChars_flatten (maps_lower k _) (by decide) caseless_scheme, Option.map_map]
  rfl

/-- The bytes in front of a slice. -/
theorem byteLen_of_dropBytes {s front after : Text} {n : Nat} (hs : s = front ++ after)
    (h : dropBytes s n = some after) : byteLen front = n := by
  obtain ⟨u, hu, hbytes⟩ := dropBytes_eq_some.mp h
  rw [List.append_cancel_right (hs.symm.trans hu), hbytes]

/-- A URL is sliced in step exactly if the text in front keeps its length. -/
theorem urlInStep_iff : UrlInStep k line ↔ UrlEven k line := by
  rw [UrlInStep, UrlEven, findBytes_lower]
  have hthree : byteLen "://".toList = 3 := by decide
  constructor
  · intro h front after hsplit
    have hline := Str.splitOnceChars_eq hsplit
    obtain ⟨front', after', hline', hlen, hdrop⟩ := h _ (by rw [hsplit]; rfl)
    have hbytes := byteLen_of_dropBytes hline' hdrop
    rw [List.append_assoc] at hline hline'
    obtain rfl := front_unique (maps_lower k _) hline hline' hlen.symm
    rw [byteLen_append, hthree] at hbytes
    exact (Nat.add_right_cancel hbytes).symm
  · intro h pos hpos
    obtain ⟨⟨front, after⟩, hsplit, rfl⟩ := Option.map_eq_some_iff.mp hpos
    have hline := Str.splitOnceChars_eq hsplit
    refine ⟨front, after, hline, rfl, ?_⟩
    dsimp only
    rw [h front after hsplit]
    exact dropBytes_eq_some.mpr ⟨front ++ "://".toList, hline, by rw [byteLen_append, hthree]⟩

/-- A key ends with a character without a case, so its occurrence ends where one of the line does. -/
theorem exists_endsWithKey {key : String} (hkey : ∃ name, key.toList = name ++ ['=']) {pos : Nat}
    (hpos : findBytes (k.mapping.upper line) key = some pos) :
    ∃ front after, line.toList = front ++ after ∧ EndsWithKey k line key front := by
  have hmaps := maps_upper k line.toList
  have hsign : Caseless '=' := ⟨by decide, rfl⟩
  obtain ⟨name, hname⟩ := hkey
  have hfound := hpos
  rw [findBytes_eq, toList_upper] at hfound
  obtain ⟨⟨before, rest⟩, hsplit, rfl⟩ := Option.map_eq_some_iff.mp hfound
  have hflat : (k.upper line.toList).flatten = (before ++ name) ++ '=' :: rest := by
    rw [Str.splitOnceChars_eq hsplit, hname]
    simp
  obtain ⟨vs, ws, hus, hvs, -⟩ :=
    flatten_eq_append_cons hflat fun u hu hmem => eq_singleton_of_mem hmaps hsign hu hmem
  have hlen : line.toList.length = vs.length + (ws.length + 1) := by
    rw [hmaps.length_eq, hus, List.length_append, List.length_cons]
  have htake : (line.toList.take (vs.length + 1)).length = vs.length + 1 :=
    List.length_take_of_le (by omega)
  have himage : frontImage (k.upper line.toList) (line.toList.take (vs.length + 1)) =
      before ++ key.toList := by
    rw [frontImage, htake, hus, List.take_length_add_append, hname, ← List.append_assoc, ← hvs]
    simp
  refine ⟨line.toList.take (vs.length + 1), line.toList.drop (vs.length + 1),
    (List.take_append_drop _ _).symm, byteLen before, hpos, ?_⟩
  rw [himage, byteLen_append]
  rfl

/-- A key is sliced in step exactly if the line up to its end keeps its length. -/
theorem keyInStep_iff {key : String} (hkey : ∃ name, key.toList = name ++ ['=']) :
    KeyInStep k line key ↔ KeyEven k line key := by
  constructor
  · rintro h front after hline ⟨pos, hpos, hlen⟩
    obtain ⟨front', after', hline', ⟨pos', hpos', hlen'⟩, hdrop⟩ := h pos hpos
    cases hpos.symm.trans hpos'
    obtain rfl := front_unique (maps_upper k _) hline hline' (hlen.trans hlen'.symm)
    rw [hlen]
    exact (byteLen_of_dropBytes hline' hdrop).symm
  · intro h pos hpos
    obtain ⟨front, after, hline, hends⟩ := exists_endsWithKey hkey hpos
    have heven := h front after hline hends
    obtain ⟨pos', hpos', hlen⟩ := hends
    cases hpos.symm.trans hpos'
    exact ⟨front, after, hline, ⟨pos, hpos, hlen⟩,
      dropBytes_eq_some.mpr ⟨front, hline, heven.symm.trans hlen⟩⟩

/-- A key that is sliced in step stops the loop exactly if a leak stands behind it. -/
theorem leakUnder_cons_of_inStep {key : String} (h : KeyInStep k line key) (keys : List String) :
    leakUnder k.mapping line (key :: keys) = some false ↔
      ¬ LeakInPlace k line key ∧ leakUnder k.mapping line keys = some false := by
  rw [leakUnder]
  cases hpos : findBytes (k.mapping.upper line) key with
  | none =>
    refine (and_iff_right ?_).symm
    rintro ⟨front, after, -, ⟨pos, hsome, -⟩, -⟩
    rw [hpos] at hsome
    cases hsome
  | some pos =>
    obtain ⟨front, after, hline, ⟨pos', hpos', hlen⟩, hdrop⟩ := h pos hpos
    cases hpos.symm.trans hpos'
    have hplace : LeakInPlace k line key ↔ LeakRun after := by
      constructor
      · rintro ⟨front', after', hline', ⟨pos'', hpos'', hlen'⟩, hrun⟩
        cases hpos.symm.trans hpos''
        obtain rfl := front_unique (maps_upper k _) hline hline' (hlen.trans hlen'.symm)
        rwa [List.append_cancel_left (hline.symm.trans hline')]
      · exact fun hrun => ⟨front, after, hline, ⟨pos, hpos, hlen⟩, hrun⟩
    dsimp only
    rw [hdrop, hplace, LeakRun]
    dsimp only
    split
    next hrun =>
      rw [Bool.and_eq_true, decide_eq_true_iff, Bool.not_eq_true'] at hrun
      exact iff_of_false (fun h => by cases h) fun hnot => hnot.1 hrun
    next hrun =>
      rw [Bool.and_eq_true, decide_eq_true_iff, Bool.not_eq_true'] at hrun
      exact (and_iff_right hrun).symm

theorem leaksInStep_cons {key : String} {keys : List String} : LeaksInStep k line (key :: keys) ↔
    KeyInStep k line key ∧ (¬ LeakInPlace k line key → LeaksInStep k line keys) := by
  constructor
  · intro h
    have hkey : KeyInStep k line key := h [] key keys rfl rfl
    refine ⟨hkey, fun hplace front key' rest heq hfalse => ?_⟩
    exact h (key :: front) key' rest (congrArg (List.cons key) heq)
      ((leakUnder_cons_of_inStep hkey front).mpr ⟨hplace, hfalse⟩)
  · rintro ⟨hkey, h⟩ front key' rest heq hfalse
    cases front with
    | nil =>
      cases heq
      exact hkey
    | cons other front =>
      obtain ⟨rfl, hrest⟩ := List.cons.inj heq
      obtain ⟨hplace, hfalse⟩ := (leakUnder_cons_of_inStep hkey front).mp hfalse
      exact h hplace front key' rest hrest hfalse

theorem leaksEven_cons {key : String} {keys : List String} : LeaksEven k line (key :: keys) ↔
    KeyEven k line key ∧ (¬ LeakInPlace k line key → LeaksEven k line keys) := by
  constructor
  · intro h
    refine ⟨h [] key keys rfl fun _ hmem => absurd hmem List.not_mem_nil, ?_⟩
    intro hplace front key' rest heq hother
    exact h (key :: front) key' rest (congrArg (List.cons key) heq)
      (List.forall_mem_cons.mpr ⟨hplace, hother⟩)
  · rintro ⟨hkey, h⟩ front key' rest heq hother
    cases front with
    | nil =>
      cases heq
      exact hkey
    | cons other front =>
      obtain ⟨rfl, hrest⟩ := List.cons.inj heq
      rw [List.forall_mem_cons] at hother
      exact h hother.1 front key' rest hrest hother.2

theorem leaksInStep_iff {keys : List String}
    (hkeys : ∀ key ∈ keys, ∃ name, key.toList = name ++ ['=']) :
    LeaksInStep k line keys ↔ LeaksEven k line keys := by
  induction keys with
  | nil =>
    refine iff_of_true (fun front key rest heq => ?_) fun front key rest heq => ?_ <;>
    cases front <;> cases heq
  | cons key keys ih =>
    rw [List.forall_mem_cons] at hkeys
    rw [leaksInStep_cons, leaksEven_cons, keyInStep_iff hkeys.1, ih hkeys.2]

end Alignment

theorem leakKeys_end : ∀ key ∈ leakKeys, ∃ name, key.toList = name ++ ['='] := by
  intro key hkey
  rw [leakKeys] at hkey
  simp only [List.mem_cons, List.not_mem_nil, or_false] at hkey
  rcases hkey with rfl | rfl | rfl | rfl | rfl
  · exact ⟨"PASSWORD".toList, rfl⟩
  · exact ⟨"SECRET".toList, rfl⟩
  · exact ⟨"_TOKEN".toList, rfl⟩
  · exact ⟨"PRIVATE_KEY".toList, rfl⟩
  · exact ⟨"API_KEY".toList, rfl⟩

/-- Every slice of the scanners is in step exactly if the text in front of it keeps its length. -/
theorem slices_in_step_iff (k : Casing) (line : String) :
    (UrlInStep k line ↔ UrlEven k line) ∧
      (LeaksInStep k line leakKeys ↔ LeaksEven k line leakKeys) :=
  ⟨urlInStep_iff, leaksInStep_iff leakKeys_end⟩

/-- The dotted capital letter has two characters in lower case. -/
def dottedLower (c : Char) : Text :=
  if c.toNat = 304 then ['i', Char.ofNat 775]
  else if c.toNat < 128 then [Str.asciiLower c] else [c]

def dottedUpper (c : Char) : Text := if c.toNat < 128 then [asciiUpper c] else [c]

theorem caseOf_dottedLower (c : Char) : CaseOf Str.asciiLower c (dottedLower c) := by
  unfold dottedLower
  split
  next hdotted =>
    refine ⟨List.cons_ne_nil _ _, fun hlt => by omega, fun _ d hd hlt => ?_⟩
    rw [List.mem_pair] at hd
    rcases hd with rfl | rfl
    · rfl
    · exact absurd hlt (by decide)
  next =>
    split
    next hlt => exact ⟨List.cons_ne_nil _ _, fun _ => rfl, fun hge => by omega⟩
    next hge =>
      refine ⟨List.cons_ne_nil _ _, fun hlt => absurd hlt hge, fun _ d hd hlt => ?_⟩
      rw [List.mem_singleton.mp hd] at hlt
      exact absurd hlt hge

theorem caseOf_dottedUpper (c : Char) : CaseOf asciiUpper c (dottedUpper c) := by
  unfold dottedUpper
  split
  next hlt => exact ⟨List.cons_ne_nil _ _, fun _ => rfl, fun hge => by omega⟩
  next hge =>
    refine ⟨List.cons_ne_nil _ _, fun hlt => absurd hlt hge, fun _ d hd hlt => ?_⟩
    rw [List.mem_singleton.mp hd] at hlt
    exact absurd hlt hge

def dottedCasing : Casing where
  lower s := s.map dottedLower
  upper s := s.map dottedUpper
  lower_of _ := List.forall₂_map_right_iff.mpr (List.forall₂_same.mpr fun c _ => caseOf_dottedLower c)
  upper_of _ := List.forall₂_map_right_iff.mpr (List.forall₂_same.mpr fun c _ => caseOf_dottedUpper c)

/-- A scheme behind that letter. -/
def dottedLine : String := "\u0130://"

theorem slices_out_of_step : ¬ ∀ line, UrlInStep dottedCasing line ∧
    LeaksInStep dottedCasing line leakKeys := by
  intro hall
  have hpos : findBytes (dottedCasing.mapping.lower dottedLine) "://" = some 3 := by decide +kernel
  obtain ⟨front, after, -, -, hdrop⟩ := (hall dottedLine).1 3 hpos
  have hnone : dropBytes dottedLine.toList (3 + 3) = none := by decide +kernel
  cases hnone.symm.trans hdrop

end Shellflow.Audit
