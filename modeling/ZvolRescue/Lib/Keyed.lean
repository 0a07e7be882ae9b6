import Mathlib.Data.List.Dedup
import Mathlib.Data.List.Sort
import Mathlib.Order.Defs.LinearOrder

/-!
# The last of each key

A map that is filled from a list keeps the last element of each key, and gives its keys in order.
The keys are the same for every order of the list (`sortedKeys_perm`), but any element of a key can
be the last of it (`exists_perm_lastOf`).
-/

namespace ZvolRescue
namespace Lib

section Keyed

variable {α κ : Type} [LinearOrder κ] (key : α → κ)

/-- The keys in a list, in ascending order. -/
def sortedKeys (l : List α) : List κ := (l.map key).dedup.mergeSort (· ≤ ·)

/-- The last element of a key. -/
def lastOf (l : List α) (k : κ) : Option α := l.reverse.find? (fun a => key a = k)

variable {key} {l l' : List α} {a : α} {k : κ}

theorem mem_sortedKeys : k ∈ sortedKeys key l ↔ ∃ a ∈ l, key a = k := by
  simp [sortedKeys]

theorem sortedKeys_perm (h : l.Perm l') : sortedKeys key l = sortedKeys key l' := by
  have hperm : (sortedKeys key l).Perm (sortedKeys key l') :=
    (List.mergeSort_perm _ _).trans (((h.map key).dedup).trans (List.mergeSort_perm _ _).symm)
  exact hperm.eq_of_pairwise' (List.pairwise_mergeSort' (· ≤ ·) _)
    (List.pairwise_mergeSort' (· ≤ ·) _)

theorem sortedKeys_sorted (l : List α) : (sortedKeys key l).Pairwise (· < ·) := by
  have hnodup : (sortedKeys key l).Nodup :=
    (List.mergeSort_perm _ _).nodup_iff.mpr (List.nodup_dedup _)
  exact (List.pairwise_mergeSort' (· ≤ ·) _).imp₂ (fun _ _ => lt_of_le_of_ne) hnodup

theorem mem_of_lastOf (h : lastOf key l k = some a) : a ∈ l ∧ key a = k := by
  have hmem := List.mem_of_find?_eq_some h
  have hkey := List.find?_some h
  exact ⟨List.mem_reverse.mp hmem, by simpa using hkey⟩

theorem lastOf_eq_none : lastOf key l k = none ↔ ∀ a ∈ l, key a ≠ k := by
  simp [lastOf]

variable (key) in
theorem exists_lastOf (h : a ∈ l) : ∃ b, lastOf key l (key a) = some b := by
  cases hlast : lastOf key l (key a) with
  | none => exact absurd rfl (lastOf_eq_none.mp hlast a h)
  | some b => exact ⟨b, rfl⟩

/-- A key has no last element in one order where it has none in another. -/
theorem lastOf_none_perm (h : l.Perm l') (hnone : lastOf key l k = none) :
    lastOf key l' k = none := by
  rw [lastOf_eq_none] at hnone ⊢
  exact fun a ha => hnone a (h.mem_iff.mpr ha)

variable (key) in
/-- Every element is the last of its key in some order of the list. -/
theorem exists_perm_lastOf (h : a ∈ l) : ∃ l', l'.Perm l ∧ lastOf key l' (key a) = some a := by
  obtain ⟨s, t, rfl⟩ := List.append_of_mem h
  refine ⟨s ++ t ++ [a], ?_, by simp [lastOf]⟩
  rw [List.append_assoc]
  exact (List.perm_append_singleton a t).append_left s

end Keyed

end Lib
end ZvolRescue
