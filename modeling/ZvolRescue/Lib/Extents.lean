import Mathlib.Data.List.Sort
import Mathlib.Order.Interval.Finset.Nat
import Mathlib.Data.Set.Card

/-!
# Sets of points as lists of ranges

A range holds its start and not its end.  A list of ranges covers the points of any of them; sorted
by start, one pass makes it separated (`coalesce_separated`) and covers what it covered
(`covers_coalesce`).
-/

namespace ZvolRescue
namespace Lib

variable {α : Type} [LinearOrder α]

/-- The points of a list of ranges. -/
def Covers (l : List (α × α)) (x : α) : Prop := ∃ r ∈ l, r.1 ≤ x ∧ x < r.2

/-- Ranges that hold a point each, in order, with a gap between any two. -/
structure Separated (l : List (α × α)) : Prop where
  nonempty : ∀ r ∈ l, r.1 < r.2
  apart : l.Pairwise (fun r s => r.2 < s.1)

@[simp] theorem covers_nil (x : α) : ¬ Covers [] x := by simp [Covers]

@[simp] theorem covers_cons (r : α × α) (l : List (α × α)) (x : α) :
    Covers (r :: l) x ↔ (r.1 ≤ x ∧ x < r.2) ∨ Covers l x := by simp [Covers]

@[simp] theorem covers_append (l l' : List (α × α)) (x : α) :
    Covers (l ++ l') x ↔ Covers l x ∨ Covers l' x := by
  simp [Covers, or_and_right, exists_or]

@[simp] theorem covers_reverse (l : List (α × α)) (x : α) : Covers l.reverse x ↔ Covers l x := by
  simp [Covers]

theorem covers_perm {l l' : List (α × α)} (h : l.Perm l') (x : α) : Covers l x ↔ Covers l' x := by
  simp only [Covers, h.mem_iff]

theorem separated_nil : Separated ([] : List (α × α)) := ⟨by simp, List.Pairwise.nil⟩

/-- Separated ranges are in the order of their starts. -/
theorem Separated.sorted {l : List (α × α)} (h : Separated l) :
    l.Pairwise (fun r s => r.1 ≤ s.1) :=
  h.apart.imp_of_mem (fun hr _ hlt => (le_of_lt (h.nonempty _ hr)).trans (le_of_lt hlt))

/-! ## One pass over ranges in order -/

/-- Each range is joined to the last one where it begins in it or at its end. -/
def coalesceFrom (last : α × α) : List (α × α) → List (α × α)
  | [] => [last]
  | r :: rest =>
    if r.1 ≤ last.2 then coalesceFrom (last.1, max last.2 r.2) rest
    else last :: coalesceFrom r rest

def coalesce : List (α × α) → List (α × α)
  | [] => []
  | r :: rest => coalesceFrom r rest

theorem coalesceFrom_end_le {bound : α} (l : List (α × α)) : ∀ {last : α × α},
    last.2 ≤ bound → (∀ p ∈ l, p.2 ≤ bound) → ∀ p ∈ coalesceFrom last l, p.2 ≤ bound := by
  induction l with
  | nil =>
    intro last hlast _ p hp
    rw [List.mem_singleton.mp hp]
    exact hlast
  | cons r rest ih =>
    intro last hlast hends p hp
    obtain ⟨hr, hrest⟩ := List.forall_mem_cons.mp hends
    rw [coalesceFrom] at hp
    split at hp
    · exact ih (max_le hlast hr) hrest p hp
    · rcases List.mem_cons.mp hp with rfl | hp
      · exact hlast
      · exact ih hr hrest p hp

/-- Joined ranges end no later than those they are joined of. -/
theorem coalesce_end_le {bound : α} {l : List (α × α)} (h : ∀ p ∈ l, p.2 ≤ bound) :
    ∀ p ∈ coalesce l, p.2 ≤ bound := by
  cases l with
  | nil =>
    intro p hp
    cases hp
  | cons r rest =>
    obtain ⟨hr, hrest⟩ := List.forall_mem_cons.mp h
    exact coalesceFrom_end_le rest hr hrest

theorem covers_join {last r : α × α} (hle : last.1 ≤ r.1) (hjoin : r.1 ≤ last.2) (x : α) :
    (last.1 ≤ x ∧ x < max last.2 r.2) ↔ (last.1 ≤ x ∧ x < last.2) ∨ (r.1 ≤ x ∧ x < r.2) := by
  rw [lt_max_iff]
  refine ⟨fun h => ?_, fun h => ?_⟩
  · by_cases hx : x < last.2
    · exact Or.inl ⟨h.1, hx⟩
    · exact Or.inr ⟨hjoin.trans (not_lt.mp hx), h.2.resolve_left hx⟩
  · rcases h with h | h
    · exact ⟨h.1, Or.inl h.2⟩
    · exact ⟨hle.trans h.1, Or.inr h.2⟩

theorem covers_coalesceFrom (rest : List (α × α)) (x : α) : ∀ last : α × α,
    (∀ r ∈ rest, last.1 ≤ r.1) → rest.Pairwise (fun r s => r.1 ≤ s.1) →
      (Covers (coalesceFrom last rest) x ↔ Covers (last :: rest) x) := by
  induction rest with
  | nil =>
    intro last _ _
    rfl
  | cons r rest ih =>
    intro last hle hsorted
    obtain ⟨hfirst, hrest⟩ := List.pairwise_cons.mp hsorted
    rw [coalesceFrom]
    by_cases hjoin : r.1 ≤ last.2
    · rw [if_pos hjoin, ih (last.1, max last.2 r.2)
        (fun s hs => hle s (List.mem_cons_of_mem _ hs)) hrest]
      simp only [covers_cons, covers_join (hle r List.mem_cons_self) hjoin, or_assoc]
    · rw [if_neg hjoin, covers_cons, ih r hfirst hrest, covers_cons last]

theorem coalesceFrom_start (rest : List (α × α)) : ∀ last : α × α, (∀ r ∈ rest, last.1 ≤ r.1) →
    rest.Pairwise (fun r s => r.1 ≤ s.1) → ∀ r ∈ coalesceFrom last rest, last.1 ≤ r.1 := by
  induction rest with
  | nil =>
    intro last _ _ r hr
    rw [List.mem_singleton.mp hr]
  | cons s rest ih =>
    intro last hle hsorted r hr
    obtain ⟨hfirst, hrest⟩ := List.pairwise_cons.mp hsorted
    rw [coalesceFrom] at hr
    by_cases hjoin : s.1 ≤ last.2
    · rw [if_pos hjoin] at hr
      exact ih (last.1, max last.2 s.2) (fun u hu => hle u (List.mem_cons_of_mem _ hu)) hrest r hr
    · rw [if_neg hjoin] at hr
      rcases List.mem_cons.mp hr with rfl | hr
      · exact le_refl _
      · exact (hle s List.mem_cons_self).trans (ih s hfirst hrest r hr)

theorem coalesceFrom_separated (rest : List (α × α)) : ∀ last : α × α, last.1 < last.2 →
    (∀ r ∈ rest, r.1 < r.2) → (∀ r ∈ rest, last.1 ≤ r.1) →
      rest.Pairwise (fun r s => r.1 ≤ s.1) → Separated (coalesceFrom last rest) := by
  induction rest with
  | nil =>
    intro last hlast _ _ _
    exact ⟨by simp [coalesceFrom, hlast], List.pairwise_singleton _ _⟩
  | cons s rest ih =>
    intro last hlast hrest hle hsorted
    obtain ⟨hs, hrest⟩ := List.forall_mem_cons.mp hrest
    obtain ⟨hfirst, hsorted⟩ := List.pairwise_cons.mp hsorted
    rw [coalesceFrom]
    by_cases hjoin : s.1 ≤ last.2
    · rw [if_pos hjoin]
      exact ih (last.1, max last.2 s.2) (hlast.trans_le (le_max_left _ _)) hrest
        (fun u hu => hle u (List.mem_cons_of_mem _ hu)) hsorted
    · rw [if_neg hjoin]
      obtain ⟨hnonempty, hapart⟩ := ih s hs hrest hfirst hsorted
      refine ⟨List.forall_mem_cons.mpr ⟨hlast, hnonempty⟩, List.pairwise_cons.mpr ⟨?_, hapart⟩⟩
      intro r hr
      exact (not_le.mp hjoin).trans_le (coalesceFrom_start rest s hfirst hsorted r hr)

theorem covers_coalesce {l : List (α × α)} (h : l.Pairwise (fun r s => r.1 ≤ s.1)) (x : α) :
    Covers (coalesce l) x ↔ Covers l x := by
  cases l with
  | nil => rfl
  | cons r rest =>
    obtain ⟨hfirst, hrest⟩ := List.pairwise_cons.mp h
    exact covers_coalesceFrom rest x r hfirst hrest

theorem coalesce_separated {l : List (α × α)} (hnonempty : ∀ r ∈ l, r.1 < r.2)
    (h : l.Pairwise (fun r s => r.1 ≤ s.1)) : Separated (coalesce l) := by
  cases l with
  | nil => exact separated_nil
  | cons r rest =>
    obtain ⟨hr, hrest⟩ := List.forall_mem_cons.mp hnonempty
    obtain ⟨hfirst, hsorted⟩ := List.pairwise_cons.mp h
    exact coalesceFrom_separated rest r hr hrest hfirst hsorted

/-! ## How many points there are -/

/-- The points of separated ranges of numbers are as many as the lengths add up to. -/
theorem Separated.ncard {l : List (Nat × Nat)} (h : Separated l) :
    {x | Covers l x}.Finite ∧ {x | Covers l x}.ncard = (l.map (fun r => r.2 - r.1)).sum := by
  induction l with
  | nil => simp
  | cons r rest ih =>
    obtain ⟨hr, hrest⟩ := List.forall_mem_cons.mp h.nonempty
    obtain ⟨hfirst, hapart⟩ := List.pairwise_cons.mp h.apart
    obtain ⟨hfinite, hcard⟩ := ih ⟨hrest, hapart⟩
    have hunion : {x | Covers (r :: rest) x} = Set.Ico r.1 r.2 ∪ {x | Covers rest x} := by
      ext x
      simp
    have hdisjoint : Disjoint (Set.Ico r.1 r.2) {x | Covers rest x} := by
      rw [Set.disjoint_left]
      rintro x ⟨-, hx⟩ ⟨s, hs, hsx, -⟩
      exact absurd (hx.trans (hfirst s hs)) (not_lt.mpr hsx)
    rw [hunion]
    refine ⟨(Set.finite_Ico _ _).union hfinite, ?_⟩
    rw [Set.ncard_union_eq hdisjoint (Set.finite_Ico _ _) hfinite, hcard, List.map_cons,
      List.sum_cons, ← Finset.coe_Ico, Set.ncard_coe_finset, Nat.card_Ico]

end Lib
end ZvolRescue
