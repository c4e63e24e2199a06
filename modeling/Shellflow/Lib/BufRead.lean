import Shellflow.Lib.Bytes
import Shellflow.Lib.Str

/-! Lines read from a stream of bytes, as `BufRead::lines` delivers them up to its first error. -/
namespace BufRead
open Bytes

/-- The characters the bytes start with, and whether they are all of it; `k` bounds their number. -/
def decodeFrom : Nat → List UInt8 → List Char × Bool
  | _, [] => ([], true)
  | 0, _ :: _ => ([], false)
  | k + 1, b :: bs =>
    match (b :: bs).toByteArray.utf8DecodeChar? 0 with
    | none => ([], false)
    | some c =>
      let r := decodeFrom k ((b :: bs).drop c.utf8Size)
      (c :: r.1, r.2)

def decode (bytes : List UInt8) : List Char × Bool := decodeFrom bytes.length bytes

/-- A last line that is not valid UTF-8 is not delivered. -/
def lines (bytes : List UInt8) : List String :=
  let r := decode bytes
  (Str.linesChars (if r.2 then r.1 else r.1.rdropWhile fun c => c != '\n')).map String.ofList

/-- The bytes start with no character. -/
def Stuck (bytes : List UInt8) : Prop := bytes.toByteArray.utf8DecodeChar? 0 = none

theorem decodeFrom_encode (t : List Char) {q : List UInt8} (hq : Stuck q) {k : Nat}
    (hk : (encode t ++ q).length ≤ k) : decodeFrom k (encode t ++ q) = (t, q.isEmpty) := by
  induction t generalizing k with
  | nil =>
    rw [encode_nil, List.nil_append] at hk ⊢
    cases q with
    | nil => cases k <;> rfl
    | cons b q =>
      cases k with
      | zero => exact absurd hk (by simp)
      | succ k =>
        have hnone : (b :: q).toByteArray.utf8DecodeChar? 0 = none := hq
        rw [decodeFrom, hnone]
        rfl
  | cons c t ih =>
    rw [encode_cons, List.append_assoc] at hk ⊢
    have hsome : (String.utf8EncodeChar c ++ (encode t ++ q)).toByteArray.utf8DecodeChar? 0 =
        some c := by
      rw [List.toByteArray_append]
      exact ByteArray.utf8DecodeChar?_utf8EncodeChar_append
    have hdrop : (String.utf8EncodeChar c ++ (encode t ++ q)).drop c.utf8Size = encode t ++ q :=
      List.drop_left' (String.length_utf8EncodeChar c)
    have hlen : 1 ≤ (String.utf8EncodeChar c).length :=
      List.length_pos_iff.mpr String.utf8EncodeChar_ne_nil
    rw [List.length_append] at hk
    obtain ⟨b, bs, hcons⟩ := List.exists_cons_of_ne_nil
      (List.append_ne_nil_of_left_ne_nil (String.utf8EncodeChar_ne_nil (c := c)) (encode t ++ q))
    obtain ⟨k, rfl⟩ : ∃ j, k = j + 1 := ⟨k - 1, by omega⟩
    rw [hcons] at hsome hdrop ⊢
    rw [decodeFrom, hsome]
    dsimp only
    rw [hdrop, ih (by omega)]

theorem decode_encode (t : List Char) {q : List UInt8} (hq : Stuck q) :
    decode (encode t ++ q) = (t, q.isEmpty) := decodeFrom_encode t hq (Nat.le_refl _)

theorem stuck_nil : Stuck [] := by
  have hempty : ([] : List UInt8).toByteArray.utf8DecodeChar? 0 = none := by decide
  exact hempty

/-- A character cut short is no character. -/
theorem stuck_of_prefix {c : Char} {q : List UInt8} (h : q <+: String.utf8EncodeChar c)
    (hne : q ≠ String.utf8EncodeChar c) : Stuck q := by
  cases hdecode : q.toByteArray.utf8DecodeChar? 0 with
  | none => exact hdecode
  | some d =>
    exfalso
    obtain ⟨more, hmore⟩ := h
    have hwhole := ByteArray.utf8DecodeChar?_append_eq_some hdecode more.toByteArray
    have hsize := ByteArray.le_size_of_utf8DecodeChar?_eq_some hdecode
    have hchar : (String.utf8EncodeChar c).toByteArray.utf8DecodeChar? 0 = some c := by
      have happend := ByteArray.utf8DecodeChar?_utf8EncodeChar_append (b := ByteArray.empty) (c := c)
      rwa [ByteArray.append_empty] at happend
    rw [← List.toByteArray_append, hmore, hchar, Option.some_inj] at hwhole
    subst hwhole
    have hlen := congrArg List.length hmore
    rw [List.length_append, String.length_utf8EncodeChar] at hlen
    rw [List.size_toByteArray] at hsize
    have hnil : more = [] := List.length_eq_zero_iff.mp (by omega)
    rw [hnil, List.append_nil] at hmore
    exact hne hmore

/-- A part of an encoded text: whole characters and at most a part of the next one. -/
theorem prefix_encode {text : List Char} {p : List UInt8} (h : p <+: encode text) :
    ∃ t rest q, text = t ++ rest ∧ p = encode t ++ q ∧ Stuck q ∧
      (q = [] ∨ ∃ c after, rest = c :: after ∧ q <+: String.utf8EncodeChar c ∧
        q ≠ String.utf8EncodeChar c) := by
  induction text generalizing p with
  | nil =>
    have hnil : p = [] := List.prefix_nil.mp h
    exact ⟨[], [], [], rfl, hnil, stuck_nil, .inl rfl⟩
  | cons c text ih =>
    rw [encode_cons] at h
    by_cases hwhole : String.utf8EncodeChar c <+: p
    · obtain ⟨p', rfl⟩ := hwhole
      obtain ⟨t, rest, q, rfl, rfl, hq⟩ := ih ((List.prefix_append_right_inj _).mp h)
      exact ⟨c :: t, rest, q, rfl, (List.append_assoc _ _ _).symm, hq⟩
    · have hpart : p <+: String.utf8EncodeChar c := by
        cases List.prefix_or_prefix_of_prefix h (List.prefix_append _ _) with
        | inl hp => exact hp
        | inr hc => exact absurd hc hwhole
      have hne : p ≠ String.utf8EncodeChar c := fun he => hwhole (he ▸ List.prefix_rfl)
      exact ⟨[], c :: text, p, rfl, rfl, stuck_of_prefix hpart hne,
        .inr ⟨c, text, rfl, hpart, hne⟩⟩

/-- Whole characters are in front of a cut exactly when their bytes are. -/
theorem encode_prefix_iff {before t : List Char} {q : List UInt8} (hq : Stuck q) :
    encode before <+: encode t ++ q ↔ before <+: t := by
  constructor
  · rintro ⟨more, hmore⟩
    cases encode_append_cases before t hmore with
    | inl h =>
      obtain ⟨c, rfl, -⟩ := h
      exact List.prefix_append before c
    | inr h =>
      obtain ⟨c, rfl, rfl⟩ := h
      cases c with
      | nil => rw [List.append_nil]
      | cons x c =>
        have hsome : (encode (x :: c) ++ more).toByteArray.utf8DecodeChar? 0 = some x := by
          rw [encode_cons, List.append_assoc, List.toByteArray_append]
          exact ByteArray.utf8DecodeChar?_utf8EncodeChar_append
        rw [Stuck, hsome] at hq
        cases hq
  · rintro ⟨c, rfl⟩
    rw [encode_append, List.append_assoc]
    exact List.prefix_append _ _

/-- What stands in front of a newline stays when an unfinished line is dropped. -/
theorem prefix_rdropWhile (a b : List Char) :
    a ++ ['\n'] <+: (a ++ '\n' :: b).rdropWhile fun c => c != '\n' := by
  induction b using List.reverseRecOn with
  | nil =>
    rw [List.rdropWhile_concat_neg _ _ _ (by decide)]
  | append_singleton b x ih =>
    have happend : a ++ '\n' :: (b ++ [x]) = (a ++ '\n' :: b) ++ [x] := by simp
    rw [happend, List.rdropWhile_concat]
    split
    · exact ih
    · exact ⟨b ++ [x], by simp⟩

/-- The lines of a cut text are the lines of a part of it. A part that ends in front of a newline,
or of ASCII characters and a newline, is read exactly when its bytes are in front of the cut. -/
theorem lines_of_prefix {text : List Char} {p : List UInt8} (h : p <+: encode text) :
    ∃ u, u <+: text ∧ lines p = (Str.linesChars u).map String.ofList ∧
      ∀ before ascii after, text = before ++ (ascii ++ '\n' :: after) →
        (∀ c ∈ ascii, c.utf8Size = 1) → (encode before <+: p ↔ before <+: u) := by
  obtain ⟨t, rest, q, rfl, rfl, hq, hnext⟩ := prefix_encode h
  have hdecode := decode_encode t hq
  rcases hnext with rfl | ⟨c, after, rfl, hpart, hne⟩
  · refine ⟨t, List.prefix_append t rest, ?_, fun before ascii after _ _ => ?_⟩
    · rw [lines, hdecode]
      rfl
    · exact encode_prefix_iff stuck_nil
  · by_cases hnil : q = []
    · subst hnil
      refine ⟨t, List.prefix_append t _, ?_, fun before ascii after _ _ => ?_⟩
      · rw [lines, hdecode]
        rfl
      · exact encode_prefix_iff stuck_nil
    · have hempty : q.isEmpty = false := List.isEmpty_eq_false_iff.mpr hnil
      refine ⟨t.rdropWhile fun c => c != '\n',
        (List.rdropWhile_prefix _ _).trans (List.prefix_append _ _), ?_, ?_⟩
      · rw [lines, hdecode, hempty]
        rfl
      · intro before ascii after' hsplit hascii
        rw [encode_prefix_iff hq]
        constructor
        · rintro ⟨s, rfl⟩
          have hbig : c.utf8Size ≠ 1 := by
            intro hone
            have hlen := hpart.length_le
            rw [String.length_utf8EncodeChar, hone] at hlen
            have hq1 : q.length = 1 := by
              have := List.length_pos_iff.mpr hnil
              omega
            exact hne (hpart.eq_of_length (by rw [hq1, String.length_utf8EncodeChar, hone]))
          have hnewline : c ≠ '\n' := fun hc => hbig (by rw [hc]; decide)
          rw [List.append_assoc, List.append_cancel_left_eq] at hsplit
          rcases List.append_eq_append_iff.mp hsplit with ⟨a, rfl, ha⟩ | ⟨a, rfl, ha⟩
          · exfalso
            cases a with
            | nil => exact hnewline (List.cons.inj ha).1
            | cons x a =>
              have hx := (List.cons.inj ha).1
              exact hbig (hascii c (hx ▸ List.mem_append_right s List.mem_cons_self))
          · cases a with
            | nil => exact absurd (List.cons.inj ha).1.symm hnewline
            | cons x a =>
              obtain ⟨rfl, -⟩ := List.cons.inj ha
              have hline := prefix_rdropWhile (before ++ ascii) a
              rw [List.append_assoc, List.append_assoc] at hline
              exact (List.prefix_append before _).trans hline
        · exact fun hu => hu.trans (List.rdropWhile_prefix _ _)

end BufRead
