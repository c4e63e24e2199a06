/-! Texts as bytes: UTF-8 is a prefix code, and hexadecimal digits determine the bytes. -/
namespace Bytes

def encode (s : List Char) : List UInt8 := s.flatMap String.utf8EncodeChar

@[simp] theorem encode_nil : encode [] = [] := rfl

@[simp] theorem encode_cons (c : Char) (s : List Char) :
    encode (c :: s) = String.utf8EncodeChar c ++ encode s := rfl

@[simp] theorem encode_append (s t : List Char) : encode (s ++ t) = encode s ++ encode t :=
  List.flatMap_append

/-- A byte below 128 is a character of its own. -/
theorem toNat_of_mem_utf8EncodeChar {c : Char} {b : UInt8} (hb : b.toNat < 128)
    (h : b ∈ String.utf8EncodeChar c) : c.val.toNat = b.toNat := by
  rw [String.utf8EncodeChar] at h
  -- the bytes of a longer character are from 128 on
  repeat' split at h
  all_goals
    simp only [List.mem_cons, List.not_mem_nil, or_false, ← UInt8.toNat_inj, UInt8.toNat_ofNat'] at h
    omega

theorem notMem_encode {s : List Char} {b : UInt8} (hb : b.toNat < 128)
    (h : ∀ c ∈ s, c.val.toNat ≠ b.toNat) : b ∉ encode s := by
  intro hmem
  obtain ⟨c, hc, hbyte⟩ := List.mem_flatMap.mp hmem
  exact h c hc (toNat_of_mem_utf8EncodeChar hb hbyte)

theorem length_encode_pos {s : List Char} (h : s ≠ []) : 0 < (encode s).length := by
  cases s with
  | nil => exact absurd rfl h
  | cons c s =>
    have hpos : 0 < (String.utf8EncodeChar c).length :=
      List.length_pos_iff.mpr String.utf8EncodeChar_ne_nil
    rw [encode_cons, List.length_append]
    omega

/-- The bytes of a character tell where they end. -/
theorem encodeChar_append_inj {c d : Char} {r s : List UInt8}
    (h : String.utf8EncodeChar c ++ r = String.utf8EncodeChar d ++ s) : c = d ∧ r = s := by
  have hdecode := congrArg (fun l => l.toByteArray.utf8DecodeChar? 0) h
  simp only [List.toByteArray_append, ByteArray.utf8DecodeChar?_utf8EncodeChar_append,
    Option.some.injEq] at hdecode
  subst hdecode
  exact ⟨rfl, List.append_cancel_left h⟩

/-- When two byte strings start with a text each, one of the texts goes on with the other. -/
theorem encode_append_cases (a b : List Char) {r s : List UInt8}
    (h : encode a ++ r = encode b ++ s) :
    (∃ c, b = a ++ c ∧ r = encode c ++ s) ∨ ∃ c, a = b ++ c ∧ s = encode c ++ r := by
  induction a generalizing b with
  | nil => exact .inl ⟨b, rfl, h⟩
  | cons x a ih =>
    cases b with
    | nil => exact .inr ⟨x :: a, rfl, h.symm⟩
    | cons y b =>
      rw [encode_cons, encode_cons, List.append_assoc, List.append_assoc] at h
      obtain ⟨hxy, hrest⟩ := encodeChar_append_inj h
      subst hxy
      cases ih b hrest with
      | inl hc =>
        obtain ⟨c, hb, hr⟩ := hc
        exact .inl ⟨c, by rw [hb, List.cons_append], hr⟩
      | inr hc =>
        obtain ⟨c, ha, hs⟩ := hc
        exact .inr ⟨c, by rw [ha, List.cons_append], hs⟩

theorem encode_eq_nil {s : List Char} (h : encode s = []) : s = [] := by
  by_cases hs : s = []
  · exact hs
  · have hpos := length_encode_pos hs
    rw [h, List.length_nil] at hpos
    omega

theorem encode_inj {s t : List Char} (h : encode s = encode t) : s = t := by
  have happ : encode s ++ [] = encode t ++ [] := by rw [List.append_nil, List.append_nil, h]
  rcases encode_append_cases s t happ with ⟨c, ht, hc⟩ | ⟨c, hs, hc⟩
  · rw [List.append_nil] at hc
    rw [ht, encode_eq_nil hc.symm, List.append_nil]
  · rw [List.append_nil] at hc
    rw [hs, encode_eq_nil hc.symm, List.append_nil]

/-- A text that ends the bytes of another one ends it on a character boundary. -/
theorem suffix_of_encode {s t : List Char} (hne : s ≠ []) (h : encode s <:+ encode t) :
    s <:+ t := by
  induction t with
  | nil => exact absurd (encode_eq_nil (List.suffix_nil.mp h)) hne
  | cons d t ih =>
    obtain ⟨front, hfront⟩ := h
    rw [encode_cons] at hfront
    rcases List.append_eq_append_iff.mp hfront with ⟨cut, hcut, hs⟩ | ⟨cut, hcut, ht⟩
    · by_cases hwhole : front = []
      · rw [hwhole, List.nil_append, ← encode_cons] at hfront
        exact encode_inj hfront ▸ List.suffix_rfl
      · by_cases hempty : cut = []
        · rw [hempty, List.nil_append] at hs
          rw [encode_inj hs]
          exact List.suffix_cons d t
        · -- the bytes of `s` would begin inside the character `d`
          obtain ⟨c, rest, rfl⟩ := List.exists_cons_of_ne_nil hne
          obtain ⟨b, cut, rfl⟩ := List.exists_cons_of_ne_nil hempty
          have hlt : front.length < (String.utf8EncodeChar d).length := by
            rw [hcut, List.length_append, List.length_cons]
            omega
          have hfirst : (String.utf8EncodeChar d)[front.length] = b := by
            simp [hcut]
          have hbyte : b.IsUTF8FirstByte := by
            obtain ⟨x, xs, hx⟩ := List.exists_cons_of_ne_nil
              (String.utf8EncodeChar_ne_nil : String.utf8EncodeChar c ≠ [])
            rw [encode_cons, hx] at hs
            have hpos : 0 < (String.utf8EncodeChar c).length := by simp [hx]
            have hzero : (String.utf8EncodeChar c)[0] = x := by simp [hx]
            rw [← (List.cons.inj hs).1, ← hzero]
            exact UInt8.isUTF8FirstByte_getElem_zero_utf8EncodeChar
          rw [← hfirst, UInt8.isUTF8FirstByte_getElem_utf8EncodeChar] at hbyte
          exact absurd (List.length_eq_zero_iff.mp hbyte) hwhole
    · exact (ih ⟨cut, ht.symm⟩).trans (List.suffix_cons d t)

def hexDigit (n : Nat) : Char := if n < 10 then Char.ofNat (48 + n) else Char.ofNat (87 + n)

/-- Two lower-case digits for each byte. -/
def hexChars (bytes : List UInt8) : List Char :=
  bytes.flatMap fun b => [hexDigit (b.toNat / 16), hexDigit (b.toNat % 16)]

theorem hexDigit_inj {m n : Nat} (hm : m < 16) (hn : n < 16) (h : hexDigit m = hexDigit n) :
    m = n := by
  have hall : ∀ a b : Fin 16, hexDigit a = hexDigit b → a = b := by decide
  exact Fin.mk.inj (hall ⟨m, hm⟩ ⟨n, hn⟩ h)

theorem hexChars_inj {a b : List UInt8} (h : hexChars a = hexChars b) : a = b := by
  induction a generalizing b with
  | nil =>
    cases b with
    | nil => rfl
    | cons y b => cases h
  | cons x a ih =>
    cases b with
    | nil => cases h
    | cons y b =>
      simp only [hexChars, List.flatMap_cons, List.cons_append, List.nil_append,
        List.cons.injEq] at h
      obtain ⟨hhigh, hlow, hrest⟩ := h
      have hx := x.toNat_lt
      have hy := y.toNat_lt
      have hhigh := hexDigit_inj (by omega) (by omega) hhigh
      have hlow := hexDigit_inj (by omega) (by omega) hlow
      have hxy : x = y := UInt8.toNat_inj.mp (by omega)
      rw [hxy, ih hrest]

theorem of_mem_hexChars {bytes : List UInt8} {c : Char} (h : c ∈ hexChars bytes) :
    ∃ n, n < 16 ∧ c = hexDigit n := by
  obtain ⟨b, -, hc⟩ := List.mem_flatMap.mp h
  have hb := b.toNat_lt
  simp only [List.mem_cons, List.not_mem_nil, or_false] at hc
  cases hc with
  | inl hc => exact ⟨_, by omega, hc⟩
  | inr hc => exact ⟨_, by omega, hc⟩

end Bytes
