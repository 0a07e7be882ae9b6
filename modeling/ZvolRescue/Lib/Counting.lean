import Mathlib.Data.List.Nodup
import Mathlib.Data.List.Perm.Subperm
import Mathlib.Data.List.Range

/-!
# Counting elements by their positions
-/

namespace ZvolRescue
namespace Lib

variable {α : Type*}

/-- As many positions hold an element that satisfies `p` as there are such elements. -/
theorem length_filter_range (p : α → Bool) (l : List α) :
    ((List.range l.length).filter (fun i => (l[i]?).any p)).length = l.countP p := by
  induction l using List.reverseRecOn with
  | nil => rfl
  | append_singleton l a ih =>
    have hbefore : (List.range l.length).filter (fun i => ((l ++ [a])[i]?).any p) =
        (List.range l.length).filter (fun i => (l[i]?).any p) := by
      refine List.filter_congr (fun i hi => ?_)
      rw [List.getElem?_append_left (List.mem_range.mp hi)]
    rw [List.length_append, List.length_singleton, List.range_succ, List.filter_append, hbefore,
      List.length_append, ih, List.countP_append, List.countP_singleton, List.filter_singleton]
    by_cases hp : p a = true
    · simp [hp]
    · simp [hp]

/-- Distinct positions of elements that satisfy `p` are no more than these elements. -/
theorem length_le_countP {p : α → Bool} {l : List α} {positions : List Nat}
    (hnodup : positions.Nodup) (hpositions : ∀ i ∈ positions, (l[i]?).any p = true) :
    positions.length ≤ l.countP p := by
  rw [← length_filter_range]
  refine (List.subperm_of_subset hnodup (fun i hi => ?_)).length_le
  refine List.mem_filter.mpr ⟨List.mem_range.mpr ?_, hpositions i hi⟩
  by_contra hge
  have hany := hpositions i hi
  rw [List.getElem?_eq_none (not_lt.mp hge)] at hany
  cases hany

end Lib
end ZvolRescue
