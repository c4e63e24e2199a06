import Mathlib.Data.List.Basic
import Mathlib.Tactic.IntervalCases

/-! Named records in one byte string: each is its name, the length of its content in eight bytes,
and the content. The end of a name is not marked, so the string determines the records only where
the names are known, or where neither they nor the contents have a zero byte. -/
namespace Frames

abbrev Record := List UInt8 × List UInt8

/-- Eight bytes, the least significant first. -/
def le64 (n : Nat) : List UInt8 := (List.range 8).map fun i => UInt8.ofNat (n / 256 ^ i)

def frame (r : Record) : List UInt8 := r.1 ++ le64 r.2.length ++ r.2

def frames (l : List Record) : List UInt8 := l.flatMap frame

/-- No name and no content has a zero byte. -/
def Texts (l : List Record) : Prop := ∀ r ∈ l, 0 ∉ r.1 ∧ 0 ∉ r.2

/-- The length of a content leaves the last of its eight bytes at zero. -/
def Fit (l : List Record) : Prop := ∀ r ∈ l, r.2.length < 256 ^ 7

@[simp] theorem length_le64 (n : Nat) : (le64 n).length = 8 := by simp [le64]

theorem getElem_le64 (n i : Nat) (h : i < (le64 n).length) :
    (le64 n)[i] = UInt8.ofNat (n / 256 ^ i) := by
  simp [le64]

theorem getElem?_le64 (n : Nat) {i : Nat} (h : i < 8) :
    (le64 n)[i]? = some (UInt8.ofNat (n / 256 ^ i)) := by
  rw [List.getElem?_eq_getElem (by simpa using h), getElem_le64]

/-- The bytes of a length that stands behind a name. -/
theorem getElem?_name_le64 (name : List UInt8) (n : Nat) (rest : List UInt8) {i : Nat} (h : i < 8) :
    (name ++ (le64 n ++ rest))[name.length + i]? = some (UInt8.ofNat (n / 256 ^ i)) := by
  have hlen : i < (le64 n).length := by rwa [length_le64]
  rw [List.getElem?_append_right (by omega), Nat.add_sub_cancel_left,
    List.getElem?_append_left hlen, getElem?_le64 n h]

theorem le64_inj {m n : Nat} (hm : m < 256 ^ 7) (hn : n < 256 ^ 7) (h : le64 m = le64 n) :
    m = n := by
  have hbyte : ∀ i, i < 8 → m / 256 ^ i % 256 = n / 256 ^ i % 256 := by
    intro i hi
    have hbytes : (le64 m)[i]? = (le64 n)[i]? := by rw [h]
    rw [getElem?_le64 m hi, getElem?_le64 n hi, Option.some.injEq] at hbytes
    have hnat := congrArg UInt8.toNat hbytes
    simpa using hnat
  have h0 := hbyte 0 (by omega)
  have h1 := hbyte 1 (by omega)
  have h2 := hbyte 2 (by omega)
  have h3 := hbyte 3 (by omega)
  have h4 := hbyte 4 (by omega)
  have h5 := hbyte 5 (by omega)
  have h6 := hbyte 6 (by omega)
  norm_num at h0 h1 h2 h3 h4 h5 h6 hm hn
  omega

theorem frames_cons (r : Record) (l : List Record) : frames (r :: l) = frame r ++ frames l :=
  List.flatMap_cons

theorem frames_append (l m : List Record) : frames (l ++ m) = frames l ++ frames m :=
  List.flatMap_append

theorem frames_eq_nil {l : List Record} (h : frames l = []) : l = [] := by
  cases l with
  | nil => rfl
  | cons r l =>
    have hlen := congrArg List.length h
    simp [frames_cons, frame] at hlen

/-- After its name, a record ends where its length says. -/
theorem content_inj {name c c' rest rest' : List UInt8} (hc : c.length < 256 ^ 7)
    (hc' : c'.length < 256 ^ 7)
    (h : frame (name, c) ++ rest = frame (name, c') ++ rest') : c = c' ∧ rest = rest' := by
  simp only [frame, List.append_assoc, List.append_cancel_left_eq] at h
  obtain ⟨hlen, hrest⟩ := List.append_inj h (by simp)
  exact List.append_inj hrest (le64_inj hc hc' hlen)

/-- Records of known names. -/
theorem frames_inj_of_names {l l' : List Record} (hl : Fit l) (hl' : Fit l')
    (hnames : l.map Prod.fst <+: l'.map Prod.fst) (h : frames l = frames l') : l = l' := by
  induction l generalizing l' with
  | nil => exact (frames_eq_nil h.symm).symm
  | cons r l ih =>
    cases l' with
    | nil => exact absurd hnames.length_le (by simp)
    | cons r' l' =>
      obtain ⟨name, c⟩ := r
      obtain ⟨name', c'⟩ := r'
      obtain ⟨hr, hl⟩ := List.forall_mem_cons.mp hl
      obtain ⟨hr', hl'⟩ := List.forall_mem_cons.mp hl'
      obtain ⟨hname, hnames⟩ := List.cons_prefix_cons.mp hnames
      have hname : name = name' := hname
      rw [frames_cons, frames_cons, ← hname] at h
      obtain ⟨hcontent, hrest⟩ := content_inj (c := c) hr hr' h
      rw [hname, hcontent, ih hl hl' hnames hrest]

/-- Without zero bytes, no name can go on into what follows another. -/
theorem no_longer_name {d body body' rest rest' : List UInt8} (hd : 0 ∉ d) (hc : 0 ∉ body)
    (hlen : body.length < 256 ^ 7) (hlen' : body'.length < 256 ^ 7)
    (h : le64 body.length ++ (body ++ rest) = d ++ (le64 body'.length ++ (body' ++ rest'))) :
    d = [] := by
  by_contra hne
  have hpos : 0 < d.length := List.length_pos_iff.mpr hne
  have hbyte : ∀ i : Nat, (le64 body.length ++ (body ++ rest))[i]? =
      (d ++ (le64 body'.length ++ (body' ++ rest')))[i]? := fun i => by rw [h]
  -- the bytes of the name that stand where the length of the content is
  have hname : ∀ i, i < d.length → i < 8 → body.length / 256 ^ i ≠ 0 := by
    intro i hi hi8 hzero
    have hi' := hbyte i
    rw [List.getElem?_append_left (by simpa using hi8), List.getElem?_append_left hi,
      getElem?_le64 _ hi8, hzero, List.getElem?_eq_getElem hi, Option.some.injEq] at hi'
    have hmem : d[i] ∈ d := List.getElem_mem hi
    rw [← hi'] at hmem
    exact hd hmem
  have hshort : d.length < 8 := by
    by_contra hlong
    exact hname 7 (by omega) (by omega) (Nat.div_eq_of_lt hlen)
  have hreach : d.length ≤ body.length := by
    by_contra hsmall
    have hpow : body.length < 256 ^ (d.length - 1) :=
      lt_of_le_of_lt (by omega) (Nat.lt_pow_self (by omega : 1 < 256))
    exact hname (d.length - 1) (by omega) (by omega) (Nat.div_eq_of_lt hpow)
  -- so the zero byte at the end of the other length stands in the content
  have hzero := hbyte (d.length + 7)
  have hinside : d.length + 7 - 8 < body.length := by omega
  rw [getElem?_name_le64 d _ _ (by omega), Nat.div_eq_of_lt hlen',
    List.getElem?_append_right (by rw [length_le64]; omega), length_le64,
    List.getElem?_append_left hinside, List.getElem?_eq_getElem hinside,
    Option.some.injEq] at hzero
  have hmem : body[d.length + 7 - 8] ∈ body := List.getElem_mem hinside
  rw [hzero] at hmem
  exact hc hmem

/-- Of two names in front of the same bytes, neither goes on where the other ends. -/
theorem name_inj {name name' body body' rest rest' : List UInt8} (hname : 0 ∉ name)
    (hname' : 0 ∉ name') (hbody : 0 ∉ body) (hbody' : 0 ∉ body') (hlen : body.length < 256 ^ 7)
    (hlen' : body'.length < 256 ^ 7)
    (h : frame (name, body) ++ rest = frame (name', body') ++ rest') : name = name' := by
  simp only [frame, List.append_assoc] at h
  cases List.append_eq_append_iff.mp h with
  | inl hlong =>
    obtain ⟨d, hd, hrest⟩ := hlong
    have hzero : 0 ∉ d := fun hmem => hname' (hd ▸ List.mem_append_right _ hmem)
    rw [no_longer_name hzero hbody hlen hlen' hrest, List.append_nil] at hd
    exact hd.symm
  | inr hlong =>
    obtain ⟨d, hd, hrest⟩ := hlong
    have hzero : 0 ∉ d := fun hmem => hname (hd ▸ List.mem_append_right _ hmem)
    rw [no_longer_name hzero hbody' hlen' hlen hrest, List.append_nil] at hd
    exact hd

theorem frames_inj_of_texts {l l' : List Record} (hl : Fit l) (hl' : Fit l') (ht : Texts l)
    (ht' : Texts l') (h : frames l = frames l') : l = l' := by
  induction l generalizing l' with
  | nil => exact (frames_eq_nil h.symm).symm
  | cons r l ih =>
    cases l' with
    | nil => exact frames_eq_nil h
    | cons r' l' =>
      obtain ⟨name, c⟩ := r
      obtain ⟨name', c'⟩ := r'
      obtain ⟨hr, hl⟩ := List.forall_mem_cons.mp hl
      obtain ⟨hr', hl'⟩ := List.forall_mem_cons.mp hl'
      obtain ⟨htr, ht⟩ := List.forall_mem_cons.mp ht
      obtain ⟨htr', ht'⟩ := List.forall_mem_cons.mp ht'
      rw [frames_cons, frames_cons] at h
      have hname : name = name' := name_inj htr.1 htr'.1 htr.2 htr'.2 hr hr' h
      rw [← hname] at h
      obtain ⟨hcontent, hrest⟩ := content_inj (c := c) hr hr' h
      rw [hname, hcontent, ih hl hl' ht ht' hrest]

/-- A zero byte can stand for the end of a name that is not there. -/
example : frames [([97], [0])] = frames [([97, 1], [])] := by decide

end Frames
