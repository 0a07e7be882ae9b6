import Mathlib.Data.List.Forall2

/-!
# The words of a command line

`shellWords` splits the arguments of a simple command as a POSIX shell does: quotes and backslashes
are taken away, and what is unquoted and stands for more than itself (an expansion, an operator, a
pattern) makes no words here.  Texts that spell words, put side by side with a blank between them,
are read as these words (`shellWords_spaced`).
-/

namespace ZvolRescue
namespace Lib

/-- What the quoting in front of a character is. -/
inductive Quoting where
  | bare
  | single
  | double
  | escape
  | doubleEscape
deriving DecidableEq

def isBlankChar (c : Char) : Bool := c = ' ' || c = '\t'

/-- The characters that stand for more than themselves where they are not quoted. -/
def isSpecial (c : Char) : Bool := c ∈ "|&;<>()$`\n*?[#~{}!".toList

/-- One more character of a word. -/
def put (word : Option (List Char)) (c : Char) : Option (List Char) := some (word.getD [] ++ [c])

/-- The words of a text that is in the middle of `word`, if it is in the middle of one. -/
def scan : Quoting → (word : Option (List Char)) → List Char → Option (List (List Char))
  | .bare, word, [] => some word.toList
  | _, _, [] => none
  | .bare, word, c :: rest =>
    if c = '\'' then scan .single (some (word.getD [])) rest
    else if c = '"' then scan .double (some (word.getD [])) rest
    else if c = '\\' then scan .escape word rest
    else if isBlankChar c then (scan .bare none rest).map (word.toList ++ ·)
    else if isSpecial c then none
    else scan .bare (put word c) rest
  | .single, word, c :: rest =>
    if c = '\'' then scan .bare word rest else scan .single (put word c) rest
  | .double, word, c :: rest =>
    if c = '"' then scan .bare word rest
    else if c = '\\' then scan .doubleEscape word rest
    else if c = '$' ∨ c = '`' then none
    else scan .double (put word c) rest
  | .escape, word, c :: rest =>
    -- a line feed after a backslash is no character of the text
    if c = '\n' then scan .bare word rest else scan .bare (put word c) rest
  | .doubleEscape, word, c :: rest =>
    if c = '\n' then scan .double word rest
    else if c ∈ ['$', '`', '"', '\\'] then scan .double (put word c) rest
    else scan .double (put (put word '\\') c) rest

def shellWords (text : List Char) : Option (List (List Char)) := scan .bare none text

/-- Texts side by side. -/
def spaced (texts : List (List Char)) : List Char := List.intercalate [' '] texts

/-- The text is read as the word, whatever comes after it. -/
def Spells (text word : List Char) : Prop :=
  ∀ rest, scan .bare none (text ++ rest) = scan .bare (some word) rest

/-- A character that stands for itself. -/
def isOrdinary (c : Char) : Bool :=
  c ≠ '\'' && c ≠ '"' && c ≠ '\\' && !isBlankChar c && !isSpecial c

theorem scan_ordinary {c : Char} (h : isOrdinary c = true) (word : Option (List Char))
    (rest : List Char) : scan .bare word (c :: rest) = scan .bare (put word c) rest := by
  simp only [isOrdinary, Bool.and_eq_true, Bool.not_eq_true', decide_eq_true_eq] at h
  obtain ⟨⟨⟨⟨hsingle, hdouble⟩, hescape⟩, hblank⟩, hspecial⟩ := h
  rw [scan, if_neg hsingle, if_neg hdouble, if_neg hescape, if_neg (by simp [hblank]),
    if_neg (by simp [hspecial])]

theorem scan_ordinaries {text : List Char} (h : ∀ c ∈ text, isOrdinary c = true) (word : List Char)
    (rest : List Char) :
    scan .bare (some word) (text ++ rest) = scan .bare (some (word ++ text)) rest := by
  induction text generalizing word with
  | nil => rw [List.nil_append, List.append_nil]
  | cons c text ih =>
    rw [List.cons_append, scan_ordinary (h c List.mem_cons_self)]
    have htail := ih (fun d hd => h d (List.mem_cons_of_mem _ hd)) (word ++ [c])
    rwa [List.append_assoc, List.singleton_append] at htail

/-- Ordinary characters spell themselves. -/
theorem spells_ordinary {text : List Char} (hne : text ≠ []) (h : ∀ c ∈ text, isOrdinary c = true) :
    Spells text text := by
  intro rest
  cases text with
  | nil => exact absurd rfl hne
  | cons c text =>
    rw [List.cons_append, scan_ordinary (h c List.mem_cons_self)]
    exact scan_ordinaries (fun d hd => h d (List.mem_cons_of_mem _ hd)) [c] rest

/-- Single quotes around a text, with each single quote in it quoted by a backslash outside. -/
def singleQuoted (word : List Char) : List Char :=
  '\'' :: word.flatMap (fun c => if c = '\'' then ['\'', '\\', '\'', '\''] else [c]) ++ ['\'']

theorem scan_singleQuoted (text word rest : List Char) :
    scan .single (some word)
      (text.flatMap (fun c => if c = '\'' then ['\'', '\\', '\'', '\''] else [c]) ++
        '\'' :: rest) = scan .bare (some (word ++ text)) rest := by
  induction text generalizing word with
  | nil =>
    rw [List.flatMap_nil, List.nil_append, List.append_nil, scan, if_pos rfl]
  | cons c text ih =>
    have htail := ih (word ++ [c])
    rw [List.append_assoc, List.singleton_append] at htail
    rw [List.flatMap_cons, List.append_assoc, ← htail]
    by_cases hc : c = '\''
    · rw [if_pos hc, hc]
      rfl
    · rw [if_neg hc, List.singleton_append, scan, if_neg hc]
      rfl

theorem spells_singleQuoted (word : List Char) : Spells (singleQuoted word) word := by
  intro rest
  simp only [singleQuoted, List.cons_append, List.append_assoc, List.nil_append]
  rw [scan, if_pos rfl]
  exact scan_singleQuoted word [] rest

/-- Texts that spell words, with a blank between them, are these words. -/
theorem shellWords_spaced {texts words : List (List Char)}
    (h : List.Forall₂ Spells texts words) : shellWords (spaced texts) = some words := by
  induction h with
  | nil => rfl
  | @cons text word texts words hword hrest ih =>
    cases hrest with
    | nil =>
      have hspaced : spaced [text] = text := by simp [spaced, List.intercalate]
      have hlast := hword []
      rw [List.append_nil] at hlast
      rw [shellWords, hspaced, hlast]
      rfl
    | @cons text' word' texts words hword' hrest =>
      have hspaced : spaced (text :: text' :: texts) = text ++ ' ' :: spaced (text' :: texts) := by
        simp [spaced, List.intercalate]
      rw [shellWords] at ih ⊢
      rw [hspaced, hword, scan, if_neg (by decide), if_neg (by decide), if_neg (by decide),
        if_pos (by decide), ih]
      rfl

end Lib
end ZvolRescue
