import Mathlib.Algebra.GroupWithZero.Nat
import Mathlib.Data.List.Nodup
import Mathlib.Data.List.Perm.Basic
import Mathlib.Order.Basic

/-!
# Sets of numbers as lists of starts and lengths

A list spans a set if its ranges cover it, in order, none empty and no two that touch.  It is built
from its end: one more range behind a gap (`Spans.snoc`), or a longer last one (`Spans.grow`).
-/

namespace ZvolRescue
namespace Lib

/-- The ranges cover the numbers with `P`, in order, none empty and with a gap between any two. -/
structure Spans (P : Nat → Prop) (ranges : List (Nat × Nat)) : Prop where
  nonempty : ∀ p ∈ ranges, 0 < p.2
  apart : ranges.Pairwise (fun p q => p.1 + p.2 < q.1)
  covers : ∀ i, (∃ p ∈ ranges, p.1 ≤ i ∧ i < p.1 + p.2) ↔ P i

namespace Spans

variable {P Q : Nat → Prop} {ranges : List (Nat × Nat)} {s l n : Nat}

theorem nil (h : ∀ i, ¬ P i) : Spans P [] where
  nonempty := by simp
  apart := List.Pairwise.nil
  covers := by simp [h]

theorem congr (h : Spans P ranges) (hiff : ∀ i, P i ↔ Q i) : Spans Q ranges where
  nonempty := h.nonempty
  apart := h.apart
  covers := fun i => (h.covers i).trans (hiff i)

/-- A range ends where what is spanned does. -/
theorem end_le (h : Spans P ranges) (hP : ∀ i, P i → i < s) {p : Nat × Nat} (hp : p ∈ ranges) :
    p.1 + p.2 ≤ s := by
  have hpos := h.nonempty p hp
  have hlast := hP (p.1 + p.2 - 1) ((h.covers _).mp ⟨p, hp, by omega, by omega⟩)
  omega

/-- One more range, behind a gap. -/
theorem snoc (h : Spans P ranges) (hgap : ∀ p ∈ ranges, p.1 + p.2 < s) (hn : 0 < n) :
    Spans (fun i => P i ∨ s ≤ i ∧ i < s + n) (ranges ++ [(s, n)]) where
  nonempty := by
    intro p hp
    rw [List.mem_append, List.mem_singleton] at hp
    rcases hp with hp | rfl
    · exact h.nonempty p hp
    · exact hn
  apart := by
    rw [List.pairwise_append]
    refine ⟨h.apart, List.pairwise_singleton _ _, ?_⟩
    intro p hp q hq
    rw [List.mem_singleton] at hq
    rw [hq]
    exact hgap p hp
  covers := by
    intro i
    rw [← h.covers i]
    simp [or_and_right, exists_or]

/-- The last range, longer. -/
theorem grow (h : Spans P (ranges ++ [(s, l)])) (n : Nat) :
    Spans (fun i => P i ∨ s + l ≤ i ∧ i < s + l + n) (ranges ++ [(s, l + n)]) where
  nonempty := by
    intro p hp
    rw [List.mem_append, List.mem_singleton] at hp
    rcases hp with hp | rfl
    · exact h.nonempty p (List.mem_append_left _ hp)
    · have hpos : 0 < l := h.nonempty (s, l) (by simp)
      show 0 < l + n
      omega
  apart := by
    have hapart := h.apart
    rw [List.pairwise_append] at hapart ⊢
    refine ⟨hapart.1, List.pairwise_singleton _ _, ?_⟩
    intro p hp q hq
    rw [List.mem_singleton] at hq
    rw [hq]
    exact hapart.2.2 p hp (s, l) (by simp)
  covers := by
    intro i
    have hcovers := h.covers i
    simp only [List.mem_append, List.mem_singleton, or_and_right, exists_or, exists_eq_left]
      at hcovers ⊢
    rw [← hcovers, or_assoc]
    apply or_congr_right
    omega

/-- The lengths of the ranges together are how many numbers they cover. -/
theorem sum_eq_countP [DecidablePred P] (h : Spans P ranges) (hP : ∀ i, P i → i < n) :
    (ranges.map Prod.snd).sum = (List.range n).countP (fun i => P i) := by
  have hmem : ∀ i, i ∈ ranges.flatMap (fun p => List.range' p.1 p.2) ↔
      i ∈ (List.range n).filter (fun i => P i) := by
    intro i
    rw [List.mem_filter, List.mem_range, decide_eq_true_iff, List.mem_flatMap]
    simp only [List.mem_range'_1, h.covers]
    exact ⟨fun hi => ⟨hP i hi, hi⟩, fun hi => hi.2⟩
  have hnodup : (ranges.flatMap (fun p => List.range' p.1 p.2)).Nodup := by
    refine List.nodup_flatMap.mpr ⟨fun _ _ => List.nodup_range', h.apart.imp fun hpq i hp hq => ?_⟩
    have hbelow := (List.mem_range'_1.mp hp).2
    have habove := (List.mem_range'_1.mp hq).1
    omega
  have hperm := (List.perm_ext_iff_of_nodup hnodup (List.nodup_range.filter _)).mpr hmem
  have hlength := hperm.length_eq
  rw [List.length_flatMap, ← List.countP_eq_length_filter] at hlength
  rw [← hlength]
  simp only [List.length_range']

end Spans

end Lib
end ZvolRescue
