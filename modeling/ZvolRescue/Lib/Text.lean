import Mathlib.Algebra.Group.Nat.Defs
import Mathlib.Data.List.Basic

/-!
# Text as lists of characters

Lines, white space and hexadecimal numbers, as the standard library of the source takes them from
a text.
-/

namespace ZvolRescue
namespace Lib

/-! ## White space -/

/-- The characters with the property White_Space. -/
def isWhitespace (c : Char) : Bool :=
  (9 ≤ c.toNat && c.toNat ≤ 13) || (0x2000 ≤ c.toNat && c.toNat ≤ 0x200a) ||
    [0x20, 0x85, 0xa0, 0x1680, 0x2028, 0x2029, 0x202f, 0x205f, 0x3000].contains c.toNat

/-- `str::trim`. -/
def trim (s : List Char) : List Char :=
  ((s.dropWhile isWhitespace).reverse.dropWhile isWhitespace).reverse

/-- `str::split_whitespace`. -/
def splitWhitespace (s : List Char) : List (List Char) :=
  (s.splitOnP isWhitespace).filter (fun w => !w.isEmpty)

theorem trim_eq_self {s : List Char} {c d : Char} {rest : List Char} (hhead : s = c :: rest)
    (hlast : s.getLast? = some d) (hc : isWhitespace c = false) (hd : isWhitespace d = false) :
    trim s = s := by
  have hfront : s.dropWhile isWhitespace = s := by
    rw [hhead, List.dropWhile_cons, if_neg (by rw [hc]; decide)]
  have hback : s.reverse.dropWhile isWhitespace = s.reverse := by
    obtain ⟨front, rfl⟩ := List.getLast?_eq_some_iff.mp hlast
    rw [List.reverse_append, List.reverse_singleton, List.singleton_append, List.dropWhile_cons,
      if_neg (by rw [hd]; decide)]
  rw [trim, hfront, hback, List.reverse_reverse]

/-! ## Parts -/

/-- The parts between separators have none of them. -/
theorem notMem_of_mem_splitOn {α : Type} [BEq α] [LawfulBEq α] (x : α) (l : List α) :
    ∀ part ∈ l.splitOn x, x ∉ part := by
  induction l with
  | nil =>
    intro part hpart
    rw [List.splitOn_nil, List.mem_singleton] at hpart
    rw [hpart]
    exact List.not_mem_nil
  | cons b l ih =>
    intro part hpart
    rw [List.splitOn_cons_eq_if_modifyHead] at hpart
    split at hpart
    · rcases List.mem_cons.mp hpart with rfl | hpart
      · exact List.not_mem_nil
      · exact ih part hpart
    · rename_i hb
      obtain ⟨first, rest, heq⟩ := List.exists_cons_of_ne_nil (List.splitOn_ne_nil x l)
      rw [heq, List.modifyHead_cons] at hpart
      rcases List.mem_cons.mp hpart with rfl | hpart
      · rw [List.mem_cons, not_or]
        exact ⟨fun h => hb (beq_iff_eq.mpr h.symm),
          ih first (by rw [heq]; exact List.mem_cons_self)⟩
      · exact ih part (by rw [heq]; exact List.mem_cons_of_mem _ hpart)

/-! ## Searching -/

/-- `str::find`: where a pattern first stands. -/
def find (pat : List Char) : List Char → Option Nat
  | [] => if pat = [] then some 0 else none
  | c :: text => if pat.isPrefixOf (c :: text) then some 0 else (find pat text).map (· + 1)

theorem find_append {pat front rest : List Char}
    (h : ∀ j, j < front.length → ¬ pat <+: (front ++ (pat ++ rest)).drop j) :
    find pat (front ++ (pat ++ rest)) = some front.length := by
  induction front with
  | nil =>
    rw [List.nil_append, List.length_nil]
    cases hpat : pat ++ rest with
    | nil => rw [find, if_pos (List.append_eq_nil_iff.mp hpat).1]
    | cons c text =>
      rw [find, if_pos]
      rw [List.isPrefixOf_iff_prefix, ← hpat]
      exact List.prefix_append _ _
  | cons c front ih =>
    have hhere : ¬ pat.isPrefixOf (c :: (front ++ (pat ++ rest))) = true := by
      rw [List.isPrefixOf_iff_prefix]
      exact h 0 (Nat.succ_pos _)
    have hlater := ih (fun j hj => h (j + 1) (Nat.succ_lt_succ hj))
    rw [List.cons_append, find, if_neg hhere, hlater]
    rfl

/-! ## Lines -/

/-- A carriage return before a line feed belongs to it. -/
def stripCr : List Char → List Char
  | '\r' :: passed => passed
  | passed => passed

/-- `str::lines`, from inside a line of which these characters, last first, have been passed. -/
def linesFrom (passed : List Char) : List Char → List (List Char)
  | [] => if passed = [] then [] else [passed.reverse]
  | c :: text =>
    if c = '\n' then
      (stripCr passed).reverse :: linesFrom [] text
    else linesFrom (c :: passed) text

def lines (text : List Char) : List (List Char) := linesFrom [] text

theorem linesFrom_line {text : List Char} (h : '\n' ∉ text) (passed rest : List Char) :
    linesFrom passed (text ++ '\n' :: rest) =
      (stripCr (text.reverse ++ passed)).reverse :: linesFrom [] rest := by
  induction text generalizing passed with
  | nil => rfl
  | cons c text ih =>
    have hc : c ≠ '\n' := fun hc => h (hc ▸ List.mem_cons_self)
    rw [List.cons_append, linesFrom, if_neg hc,
      ih (fun htext => h (List.mem_cons_of_mem _ htext)), List.reverse_cons, List.append_assoc]
    rfl

/-! ## Numbers -/

def hexDigit (c : Char) : Option Nat :=
  if '0' ≤ c ∧ c ≤ '9' then some (c.toNat - '0'.toNat)
  else if 'a' ≤ c ∧ c ≤ 'f' then some (c.toNat - 'a'.toNat + 10)
  else if 'A' ≤ c ∧ c ≤ 'F' then some (c.toNat - 'A'.toNat + 10)
  else none

/-- A 64-bit number in hexadecimal, perhaps after a plus sign. -/
def fromHex (digits : List Char) : Option Nat :=
  let digits := match digits with
    | '+' :: rest => rest
    | digits => digits
  if digits.isEmpty then none
  else (digits.mapM hexDigit).bind (fun l =>
    let v := l.foldl (fun v d => 16 * v + d) 0
    if v < 2 ^ 64 then some v else none)

end Lib
end ZvolRescue
