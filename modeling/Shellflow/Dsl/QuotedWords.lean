import Shellflow.Dsl.Words

/-! Words that are written in quotes come back from the splitting of a directive. -/
namespace Shellflow

attribute [local simp] splitWordsFrom shellQuoteSingleChars

section Steps
variable {cur rest : List Char} {inWord : Bool}

theorem splitWordsFrom_end (quote : Option Char) :
    splitWordsFrom cur true quote [] = [cur.reverse] := by
  rw [splitWordsFrom, if_pos rfl]

theorem splitWordsFrom_opens : splitWordsFrom cur inWord none ('\'' :: rest) =
    splitWordsFrom cur true (some '\'') rest := by
  cases rest with
  | nil => rw [splitWordsFrom_end, splitWordsFrom]; rfl
  | cons d rest => rw [splitWordsFrom.eq_def]; rfl

theorem splitWordsFrom_closes : splitWordsFrom cur inWord (some '\'') ('\'' :: rest) =
    splitWordsFrom cur true none rest := by
  cases rest with
  | nil => rw [splitWordsFrom_end, splitWordsFrom]; rfl
  | cons d rest => rw [splitWordsFrom.eq_def]; rfl

theorem splitWordsFrom_inside {c : Char} (hc : c ≠ '\'') :
    splitWordsFrom cur inWord (some '\'') (c :: rest) =
      splitWordsFrom (c :: cur) true (some '\'') rest := by
  cases rest with
  | nil => rw [splitWordsFrom_end, splitWordsFrom]; simp [hc]
  | cons d rest => rw [splitWordsFrom.eq_def]; simp [hc]

theorem splitWordsFrom_escaped (d : Char) :
    splitWordsFrom cur inWord none ('\\' :: d :: rest) = splitWordsFrom (d :: cur) true none rest := by
  rw [splitWordsFrom.eq_def]
  rfl

theorem splitWordsFrom_blank : splitWordsFrom cur true none (' ' :: rest) =
    cur.reverse :: splitWordsFrom [] false none rest := by
  cases rest with
  | nil => rw [splitWordsFrom]; rfl
  | cons d rest => rw [splitWordsFrom.eq_def]; rfl

end Steps

/-- Up to its closing quote a quoted text is the text; a quote in it is closed, escaped and opened
again. -/
theorem splitWordsFrom_quoted (s cur rest : List Char) :
    splitWordsFrom cur true (some '\'') (shellQuoteSingleChars s ++ rest) =
      splitWordsFrom (s.reverse ++ cur) true none rest := by
  induction s generalizing cur with
  | nil => exact splitWordsFrom_closes
  | cons c s ih =>
    rw [shellQuoteSingleChars, List.reverse_cons, List.append_assoc, List.singleton_append]
    split
    · next hc =>
      rw [List.append_assoc, List.cons_append, splitWordsFrom_closes, List.cons_append,
        List.cons_append, splitWordsFrom_escaped, List.cons_append, splitWordsFrom_opens,
        List.nil_append, ih, hc]
    · next hc => rw [List.cons_append, splitWordsFrom_inside hc, ih]

theorem shellQuoteSingleChars_ne_nil (s : List Char) : shellQuoteSingleChars s ≠ [] := by
  cases s with
  | nil => exact List.cons_ne_nil _ _
  | cons c s =>
    rw [shellQuoteSingleChars]
    split <;> simp

/-- A quoted text whose closing quote is missing. -/
def unterminated (text : String) : String := String.ofList (shellQuoteSingle text).toList.dropLast

theorem splitWordsFrom_unterminated (s cur : List Char) :
    splitWordsFrom cur true (some '\'') (shellQuoteSingleChars s).dropLast =
      [(s.reverse ++ cur).reverse] := by
  induction s generalizing cur with
  | nil => exact splitWordsFrom_end _
  | cons c s ih =>
    have hne := shellQuoteSingleChars_ne_nil s
    rw [shellQuoteSingleChars, List.reverse_cons, List.append_assoc, List.singleton_append]
    split
    · next hc =>
      rw [List.dropLast_append_of_ne_nil hne, List.cons_append, splitWordsFrom_closes,
        List.cons_append, List.cons_append, splitWordsFrom_escaped, List.cons_append,
        splitWordsFrom_opens, List.nil_append, ih, hc]
    · next hc =>
      rw [List.dropLast_cons_of_ne_nil hne, splitWordsFrom_inside hc, ih]

theorem intercalate_concat (sep x : List Char) (l : List (List Char)) :
    sep.intercalate (l ++ [x]) = l.flatMap (· ++ sep) ++ x := by
  induction l with
  | nil => simp [List.intercalate]
  | cons y l ih =>
    have hne : l ++ [x] ≠ [] := by simp
    obtain ⟨z, m, hm⟩ := List.exists_cons_of_ne_nil hne
    have hcons : sep.intercalate (y :: z :: m) = y ++ sep ++ sep.intercalate (z :: m) := by
      simp [List.intercalate]
    rw [List.cons_append, hm, hcons, ← hm, ih, List.flatMap_cons, List.append_assoc, List.append_assoc,
      List.append_assoc]

/-- Quoted words with a blank behind each come back, and then what the rest gives. -/
theorem splitWordsFrom_words (words : List String) (tail : List Char) :
    splitWordsFrom [] false none
        ((words.map fun w => (shellQuoteSingle w).toList).flatMap (· ++ [' ']) ++ tail) =
      words.map String.toList ++ splitWordsFrom [] false none tail := by
  induction words with
  | nil => rfl
  | cons w words ih =>
    rw [List.map_cons, List.flatMap_cons, shellQuoteSingle, String.toList_ofList, List.append_assoc,
      List.append_assoc, List.cons_append, splitWordsFrom_opens, splitWordsFrom_quoted,
      List.append_nil, List.singleton_append, splitWordsFrom_blank, List.reverse_reverse, ih]
    rfl

theorem splitWords_concat (words : List String) (tail : String) :
    splitWords (Str.join " " (words.map shellQuoteSingle ++ [tail])) = words ++ splitWords tail := by
  have hmap : (words.map shellQuoteSingle).map String.toList =
      words.map fun w => (shellQuoteSingle w).toList := List.map_map
  have hback : (words.map String.toList).map String.ofList = words := by simp
  have hblank : " ".toList = [' '] := rfl
  rw [splitWords, Str.join, String.toList_ofList, List.map_append, List.map_singleton, hmap, hblank,
    intercalate_concat, splitWordsFrom_words, List.map_append, hback]
  rfl

/-- Quoted words come back as they are; a quote that stays open is no error, it runs to the end. -/
theorem splitWords_quoted (words : List String) :
    splitWords (Str.join " " (words.map shellQuoteSingle)) = words ∧
      ∀ last, splitWords (Str.join " " (words.map shellQuoteSingle ++ [unterminated last])) =
        words ++ [last] := by
  constructor
  · cases words using List.reverseRecOn with
    | nil => rfl
    | append_singleton words last =>
      have hlast : splitWords (shellQuoteSingle last) = [last] := by
        have hquoted := splitWordsFrom_quoted last.toList [] []
        rw [List.append_nil, List.append_nil] at hquoted
        rw [splitWords, shellQuoteSingle, String.toList_ofList, splitWordsFrom_opens, hquoted,
          splitWordsFrom_end, List.reverse_reverse, List.map_singleton, String.ofList_toList]
      rw [List.map_append, List.map_singleton, splitWords_concat, hlast]
  · intro last
    have hlast : splitWords (unterminated last) = [last] := by
      rw [splitWords, unterminated, shellQuoteSingle, String.toList_ofList, String.toList_ofList,
        List.dropLast_cons_of_ne_nil (shellQuoteSingleChars_ne_nil _), splitWordsFrom_opens, splitWordsFrom_unterminated,
        List.append_nil, List.reverse_reverse, List.map_singleton, String.ofList_toList]
    rw [splitWords_concat, hlast]

end Shellflow
