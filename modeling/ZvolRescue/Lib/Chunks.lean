import Mathlib.Data.Nat.Basic

/-!
# A range cut into chunks

`chunkBase start c p` is where the chunk of `c` begins that `p` lies in, when chunks are counted
from `start`.
-/

namespace ZvolRescue
namespace Lib

/-- Where the chunk of `p` begins. -/
def chunkBase (start c p : Nat) : Nat := start + (p - start) / c * c

variable {start c p : Nat}

/-- Distance from the start, less whole chunks. -/
theorem dist_mod {i off : Nat} (h : off < c) : (start + i * c + off - start) % c = off := by
  rw [Nat.add_assoc, Nat.add_sub_cancel_left, Nat.add_comm, Nat.add_mul_mod_self_right,
    Nat.mod_eq_of_lt h]

theorem eq_chunk_add (c : Nat) (h : start ≤ p) :
    p = start + (p - start) / c * c + (p - start) % c := by
  have hdiv := Nat.div_add_mod (p - start) c
  rw [Nat.mul_comm] at hdiv
  omega

theorem start_le_chunkBase : start ≤ chunkBase start c p := Nat.le_add_right _ _

theorem chunkBase_le (h : start ≤ p) : chunkBase start c p ≤ p := by
  have hle := Nat.div_mul_le_self (p - start) c
  rw [chunkBase]
  omega

theorem sub_chunkBase (h : start ≤ p) : p - chunkBase start c p = (p - start) % c := by
  have heq := eq_chunk_add c h
  rw [chunkBase]
  omega

theorem lt_chunkBase_add (hc : 0 < c) (h : start ≤ p) : p < chunkBase start c p + c := by
  have hmod := Nat.mod_lt (p - start) hc
  rw [← sub_chunkBase h] at hmod
  omega

/-- A place in a chunk has its beginning. -/
theorem chunkBase_add {i off : Nat} (h : off < c) :
    chunkBase start c (start + i * c + off) = start + i * c := by
  have hmod : (start + i * c + off - start) % c = off := dist_mod h
  have hle : start ≤ start + i * c + off :=
    Nat.le_trans (Nat.le_add_right _ _) (Nat.le_add_right _ _)
  have hsub := sub_chunkBase (c := c) hle
  have hbase := chunkBase_le (c := c) hle
  omega

/-! ## Two grids -/

/-- The places `b + k * g` of a range are all multiples of `t` from its start if and only if the
first of them is and, where there are two, `g` is a multiple of `t`. -/
theorem places_dvd_iff {b g s e t : Nat} :
    (∀ k, s ≤ b + k * g → b + k * g < e → t ∣ b + k * g - s) ↔
      (∀ k, s ≤ b + k * g → b + k * g < e → (k = 0 ∨ b + (k - 1) * g < s) →
        t ∣ b + k * g - s) ∧
        ∀ k, s ≤ b + k * g → b + (k + 1) * g < e → t ∣ g := by
  have hsub : ∀ k, s ≤ b + k * g → b + (k + 1) * g - s = b + k * g - s + g := by
    intro k hk
    rw [Nat.succ_mul]
    omega
  constructor
  · intro h
    refine ⟨fun k hstart hstop _ => h k hstart hstop, fun k hstart hnext => ?_⟩
    have hthat := h (k + 1) (by rw [Nat.succ_mul]; omega) hnext
    rw [hsub k hstart] at hthat
    refine (Nat.dvd_add_right (h k hstart ?_)).mp hthat
    rw [Nat.succ_mul] at hnext
    omega
  · rintro ⟨hfirst, hwidth⟩ k hstart hstop
    induction k with
    | zero => exact hfirst 0 hstart hstop (Or.inl rfl)
    | succ k ih =>
      by_cases hbefore : b + k * g < s
      · exact hfirst (k + 1) hstart hstop (Or.inr hbefore)
      · have hk := Nat.not_lt.mp hbefore
        have hg : t ∣ g := hwidth k hk hstop
        have hthis := ih hk (by rw [Nat.succ_mul] at hstop; omega)
        rw [hsub k hk]
        exact Nat.dvd_add hthis hg

end Lib
end ZvolRescue
