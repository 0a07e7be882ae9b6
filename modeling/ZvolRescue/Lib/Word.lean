import Mathlib.Order.Basic
import Mathlib.Tactic.Ring

/-!
# Unsigned 64-bit arithmetic on natural numbers

The operations wrap as an unoptimised check-free build computes them: sums, products and
left shifts keep their low 64 bits, and a shift amount counts modulo 64.  For each of them
one lemma says that nothing happens where the exact result fits.
-/

namespace ZvolRescue
namespace Lib

/-- One more than the largest 64-bit number. -/
def word : Nat := 2 ^ 64

def add64 (a b : Nat) : Nat := (a + b) % word

def sub64 (a b : Nat) : Nat := (a + (word - b % word)) % word

def mul64 (a b : Nat) : Nat := a * b % word

def shl64 (a s : Nat) : Nat := a * 2 ^ (s % 64) % word

def shr64 (a s : Nat) : Nat := a / 2 ^ (s % 64)

/-- A sum, or the largest number where it does not fit. -/
def satAdd64 (a b : Nat) : Nat := min (a + b) (word - 1)

/-- Division rounded up. -/
def divCeil (a b : Nat) : Nat := if a % b > 0 then a / b + 1 else a / b

theorem add64_of_lt {a b : Nat} (h : a + b < word) : add64 a b = a + b := Nat.mod_eq_of_lt h

theorem satAdd64_of_lt {a b : Nat} (h : a + b < word) : satAdd64 a b = a + b :=
  Nat.min_eq_left (Nat.le_sub_one_of_lt h)

theorem mul64_of_lt {a b : Nat} (h : a * b < word) : mul64 a b = a * b := Nat.mod_eq_of_lt h

theorem sub64_of_le {a b : Nat} (ha : a < word) (h : b ≤ a) : sub64 a b = a - b := by
  have hb : b % word = b := Nat.mod_eq_of_lt (by omega)
  have hsum : a + (word - b) = a - b + word := by omega
  rw [sub64, hb, hsum, Nat.add_mod_right, Nat.mod_eq_of_lt (by omega)]

theorem shl64_of_lt {a s : Nat} (hs : s < 64) (h : a * 2 ^ s < word) : shl64 a s = a * 2 ^ s := by
  rw [shl64, Nat.mod_eq_of_lt hs, Nat.mod_eq_of_lt h]

theorem shl64_one {s : Nat} (hs : s < 64) : shl64 1 s = 2 ^ s := by
  rw [shl64_of_lt hs, Nat.one_mul]
  rw [Nat.one_mul, word]
  exact Nat.pow_lt_pow_right (by decide) hs

theorem shr64_of_lt {a s : Nat} (hs : s < 64) : shr64 a s = a / 2 ^ s := by
  rw [shr64, Nat.mod_eq_of_lt hs]

/-! ## Division rounded up -/

theorem le_divCeil_mul {a b : Nat} (hb : 0 < b) : a ≤ divCeil a b * b := by
  have hdiv := Nat.div_add_mod a b
  have hmod := Nat.mod_lt a hb
  have hcomm : b * (a / b) = a / b * b := Nat.mul_comm _ _
  unfold divCeil
  by_cases h : a % b > 0
  · rw [if_pos h, Nat.add_mul, Nat.one_mul]
    omega
  · rw [if_neg h]
    omega

/-- Rounding up adds less than one unit. -/
theorem divCeil_mul_lt {a b : Nat} (hb : 0 < b) : divCeil a b * b < a + b := by
  have hdiv := Nat.div_add_mod a b
  have hcomm : b * (a / b) = a / b * b := Nat.mul_comm _ _
  unfold divCeil
  by_cases h : a % b > 0
  · rw [if_pos h, Nat.add_mul, Nat.one_mul]
    omega
  · rw [if_neg h]
    omega

theorem divCeil_eq (a b : Nat) : divCeil a b = a / b + if a % b = 0 then 0 else 1 := by
  unfold divCeil
  by_cases h : a % b = 0
  · rw [if_neg (by omega), if_pos h, Nat.add_zero]
  · rw [if_pos (by omega), if_neg h]

theorem divCeil_pos {a b : Nat} (ha : 0 < a) (hb : 0 < b) : 0 < divCeil a b := by
  have h := le_divCeil_mul (a := a) hb
  by_contra hz
  rw [Nat.eq_zero_of_not_pos hz, Nat.zero_mul] at h
  omega

theorem divCeil_le {a b k : Nat} (hb : 0 < b) (h : a ≤ k * b) : divCeil a b ≤ k := by
  by_contra hk
  have hlt := divCeil_mul_lt (a := a) hb
  have hle : (k + 1) * b ≤ divCeil a b * b := Nat.mul_le_mul_right _ (by omega)
  rw [Nat.add_mul, Nat.one_mul] at hle
  omega

theorem mul_lt_of_lt_divCeil {a b k : Nat} (hb : 0 < b) (h : k < divCeil a b) : k * b < a := by
  by_contra hle
  have := divCeil_le (a := a) (k := k) hb (by omega)
  omega

theorem lt_divCeil_iff {a b k : Nat} (hb : 0 < b) : k < divCeil a b ↔ k * b < a := by
  constructor
  · exact mul_lt_of_lt_divCeil hb
  · intro h
    by_contra hle
    have hlow := le_divCeil_mul (a := a) hb
    have hmul : divCeil a b * b ≤ k * b := Nat.mul_le_mul_right _ (by omega)
    omega

theorem divCeil_mul_sub {a b k : Nat} (hb : 0 < b) (h : k * b ≤ a) :
    divCeil (a - k * b) b = divCeil a b - k := by
  have hdiv : (a - k * b) / b = a / b - k := by
    rw [Nat.mul_comm, Nat.sub_mul_div]
  have hmod : (a - k * b) % b = a % b := by
    rw [Nat.mul_comm]
    exact Nat.sub_mul_mod (by rwa [Nat.mul_comm])
  have hle : k ≤ a / b := (Nat.le_div_iff_mul_le hb).mpr h
  rw [divCeil_eq, divCeil_eq, hdiv, hmod]
  omega

end Lib
end ZvolRescue
