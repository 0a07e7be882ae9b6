import Mathlib.Algebra.Group.Nat.Defs
import Mathlib.Data.List.Basic

/-!
# Decimal numbers

Numbers as the standard library of the source writes and reads them: padded with zeros to a width,
and with an optional sign.
-/

namespace ZvolRescue
namespace Lib

/-! ## Writing -/

/-- `{n:0width}` of a number without a sign. -/
def padded (width n : Nat) : List Char :=
  let digits := Nat.toDigits 10 n
  List.replicate (width - digits.length) '0' ++ digits

/-- `{n:0width}`: the sign counts. -/
def paddedInt (width : Nat) (n : Int) : List Char :=
  if n < 0 then '-' :: padded (width - 1) n.natAbs else padded width n.toNat

/-! ## Reading -/

/-- The value of digits. -/
def digits (w : List Char) : Option Nat :=
  if w ≠ [] ∧ w.all Char.isDigit then some (Nat.ofDigitChars 10 w 0) else none

/-- A number perhaps after a plus sign. -/
def dropPlus : List Char → List Char
  | '+' :: w => w
  | w => w

/-- `str::parse` of 64 bits without a sign. -/
def parseU64 (w : List Char) : Option Nat := (digits (dropPlus w)).filter (fun n => n < 2 ^ 64)

/-- `str::parse` of 64 bits with a sign. -/
def parseI64 : List Char → Option Int
  | '-' :: w => ((digits w).filter (fun n => n ≤ 2 ^ 63)).map (fun n : Nat => -(n : Int))
  | w => ((digits (dropPlus w)).filter (fun n => n < 2 ^ 63)).map (fun n : Nat => (n : Int))

/-! ## What is written is read -/

theorem isDigit_of_mem_padded {width n : Nat} {c : Char} (hc : c ∈ padded width n) :
    c.isDigit = true := by
  rcases List.mem_append.mp hc with hc | hc
  · rw [List.eq_of_mem_replicate hc]
    rfl
  · exact Nat.isDigit_of_mem_toDigits (by decide) (by decide) hc

theorem padded_ne_nil (width n : Nat) : padded width n ≠ [] :=
  List.append_ne_nil_of_right_ne_nil _ Nat.toDigits_ne_nil

theorem digits_padded (width n : Nat) : digits (padded width n) = some n := by
  rw [digits, if_pos ⟨padded_ne_nil width n, List.all_eq_true.mpr
    (fun c hc => isDigit_of_mem_padded hc)⟩, padded, Nat.ofDigitChars_append,
    Nat.ofDigitChars_replicate_zero, Nat.mul_zero, Nat.ofDigitChars_ten_toDigits]

theorem paddedInt_of_nonneg {n : Int} (h : 0 ≤ n) (width : Nat) :
    paddedInt width n = padded width n.toNat :=
  if_neg (Int.not_lt.mpr h)

/-- Digits, perhaps after a plus sign. -/
def Numeral (w : List Char) (n : Nat) : Prop := digits (dropPlus w) = some n

theorem isDigit_of_digits {w : List Char} {n : Nat} (h : digits w = some n) :
    w ≠ [] ∧ ∀ c ∈ w, c.isDigit = true := by
  rw [digits] at h
  split at h
  · rename_i hdigits
    exact ⟨hdigits.1, List.all_eq_true.mp hdigits.2⟩
  · cases h

theorem dropPlus_of_digits {w : List Char} {n : Nat} (h : digits w = some n) : dropPlus w = w := by
  obtain ⟨-, hall⟩ := isDigit_of_digits h
  unfold dropPlus
  split
  · exact absurd (hall _ List.mem_cons_self) (by decide)
  · rfl

theorem numeral_padded (width n : Nat) : Numeral (padded width n) n := by
  rw [Numeral, dropPlus_of_digits (digits_padded width n), digits_padded]

namespace Numeral

variable {w : List Char} {n : Nat}

theorem chars (h : Numeral w n) : w ≠ [] ∧ ∀ c ∈ w, c = '+' ∨ c.isDigit = true := by
  unfold Numeral dropPlus at h
  split at h
  · obtain ⟨-, hall⟩ := isDigit_of_digits h
    exact ⟨List.cons_ne_nil _ _, fun c hc => (List.mem_cons.mp hc).imp id (hall c)⟩
  · obtain ⟨hne, hall⟩ := isDigit_of_digits h
    exact ⟨hne, fun c hc => .inr (hall c hc)⟩

theorem notMem (h : Numeral w n) {c : Char} (hplus : c ≠ '+') (hdigit : c.isDigit = false) :
    c ∉ w := by
  intro hc
  rcases h.chars.2 c hc with rfl | hc
  · exact hplus rfl
  · rw [hdigit] at hc
    cases hc

theorem last (h : Numeral w n) : ∃ c, w.getLast? = some c ∧ c.isDigit = true := by
  unfold Numeral dropPlus at h
  split at h
  · obtain ⟨hne, hall⟩ := isDigit_of_digits h
    refine ⟨_, ?_, hall _ (List.getLast_mem hne)⟩
    rw [List.getLast?_cons_of_ne_nil hne, List.getLast?_eq_some_getLast hne]
  · obtain ⟨hne, hall⟩ := isDigit_of_digits h
    exact ⟨_, List.getLast?_eq_some_getLast hne, hall _ (List.getLast_mem hne)⟩

theorem splitOn (h : Numeral w n) {c : Char} (hplus : c ≠ '+') (hdigit : c.isDigit = false)
    (rest : List Char) :
    w.splitOn c = [w] ∧ (w ++ c :: rest).splitOn c = w :: rest.splitOn c := by
  have hsingle := List.splitOn_eq_singleton (h.notMem hplus hdigit)
  refine ⟨hsingle, ?_⟩
  rw [List.splitOn_append_cons_self, hsingle, List.singleton_append]

theorem parseU64 (h : Numeral w n) : Lib.parseU64 w = if n < 2 ^ 64 then some n else none := by
  rw [Lib.parseU64, h, Option.filter_some]
  simp

theorem parseI64 (h : Numeral w n) :
    Lib.parseI64 w = if n < 2 ^ 63 then some (n : Int) else none := by
  have hminus := h.notMem (c := '-') (by decide) (by decide)
  unfold Lib.parseI64
  split
  · exact absurd List.mem_cons_self hminus
  · rw [h, Option.filter_some]
    split <;> simp_all

end Numeral

theorem numeral_of_parseU64 {w : List Char} {n : Nat} (h : parseU64 w = some n) :
    Numeral w n ∧ n < 2 ^ 64 := by
  rw [parseU64, Option.filter_eq_some_iff] at h
  exact ⟨h.1, of_decide_eq_true h.2⟩

/-- Without a minus sign a number is not negative. -/
theorem numeral_of_parseI64 {w : List Char} {x : Int} (hminus : '-' ∉ w)
    (h : parseI64 w = some x) : ∃ n : Nat, x = n ∧ Numeral w n ∧ n < 2 ^ 63 := by
  unfold parseI64 at h
  split at h
  · exact absurd List.mem_cons_self hminus
  · obtain ⟨n, hn, rfl⟩ := Option.map_eq_some_iff.mp h
    rw [Option.filter_eq_some_iff] at hn
    exact ⟨n, rfl, hn.1, of_decide_eq_true hn.2⟩

end Lib
end ZvolRescue
