import Mathlib.Data.List.GetD
import Mathlib.Data.List.Nodup
import Mathlib.Data.List.Perm.Basic

/-!
# The orderings of a list

Exchanging the element at a position with each of those from there on, and then the same one
position later, gives every ordering of a list (`mem_orderings`), and gives none twice where no
element stands twice (`orderings_nodup`).
-/

namespace ZvolRescue
namespace Lib

variable {α : Type*}

/-! ## Exchanging two elements -/

/-- The list with the elements at two positions exchanged. -/
def swapAt (l : List α) (i j : Nat) : List α :=
  match l[i]?, l[j]? with
  | some a, some b => (l.set i b).set j a
  | _, _ => l

theorem swapAt_of_lt {l : List α} {i j : Nat} (hi : i < l.length) (hj : j < l.length) :
    swapAt l i j = (l.set i l[j]).set j l[i] := by
  rw [swapAt, List.getElem?_eq_getElem hi, List.getElem?_eq_getElem hj]

theorem swapAt_of_not_lt {l : List α} {i j : Nat} (h : ¬ (i < l.length ∧ j < l.length)) :
    swapAt l i j = l := by
  rw [swapAt]
  split
  · rename_i hi hj
    exact absurd ⟨(List.getElem?_eq_some_iff.mp hi).1, (List.getElem?_eq_some_iff.mp hj).1⟩ h
  · rfl

theorem length_swapAt (l : List α) (i j : Nat) : (swapAt l i j).length = l.length := by
  rw [swapAt]
  split
  · rw [List.length_set, List.length_set]
  · rfl

theorem swapAt_perm (l : List α) (i j : Nat) : (swapAt l i j).Perm l := by
  by_cases h : i < l.length ∧ j < l.length
  · rw [swapAt_of_lt h.1 h.2]
    exact List.set_set_perm h.1 h.2
  · rw [swapAt_of_not_lt h]

/-- Exchanging the same elements again undoes it. -/
theorem swapAt_swapAt (l : List α) (i j : Nat) : swapAt (swapAt l i j) i j = l := by
  by_cases h : i < l.length ∧ j < l.length
  · obtain ⟨hi, hj⟩ := h
    rw [swapAt_of_lt (by rwa [length_swapAt]) (by rwa [length_swapAt])]
    simp only [swapAt_of_lt hi hj]
    refine List.ext_getElem (by simp) (fun n hn hn' => ?_)
    simp only [List.getElem_set]
    split_ifs with h1 h2 h3 h4 <;> simp_all
  · rw [swapAt_of_not_lt h, swapAt_of_not_lt h]

theorem take_swapAt {l : List α} {k i : Nat} (h : k ≤ i) (hi : i < l.length) :
    (swapAt l k i).take (k + 1) = l.take k ++ [l[i]] := by
  have hk : k < l.length := Nat.lt_of_le_of_lt h hi
  have hfirst : (swapAt l k i)[k]? = some l[i] := by
    rw [swapAt_of_lt hk hi, List.getElem?_set]
    split
    · subst i
      rw [if_pos (by rwa [List.length_set])]
    · rw [List.getElem?_set_self hk]
  rw [List.take_add_one, hfirst, Option.toList_some, swapAt_of_lt hk hi, List.take_set_of_le h,
    List.take_set_of_le (Nat.le_refl k)]

/-! ## Every ordering -/

/-- The orderings of what follows the first `k` elements, of which there are `left`. -/
def orderings : (left k : Nat) → List α → List (List α)
  | 0, _, l => [l]
  | left + 1, k, l =>
    (List.range' k (left + 1)).flatMap (fun i => orderings left (k + 1) (swapAt l k i))

theorem mem_orderings {left k : Nat} {l o : List α} (h : k + left = l.length) :
    o ∈ orderings left k l ↔ o.Perm l ∧ o.take k = l.take k := by
  induction left generalizing k l with
  | zero =>
    rw [orderings, List.mem_singleton]
    constructor
    · rintro rfl
      exact ⟨List.Perm.refl o, rfl⟩
    · rintro ⟨hperm, htake⟩
      have hk : k = l.length := h
      rwa [hk, List.take_length, ← hperm.length_eq, List.take_length] at htake
  | succ left ih =>
    have hlen : ∀ i, k + 1 + left = (swapAt l k i).length := fun i => by
      rw [length_swapAt]
      omega
    rw [orderings, List.mem_flatMap]
    constructor
    · rintro ⟨i, hi, ho⟩
      obtain ⟨hki, hil⟩ := List.mem_range'_1.mp hi
      obtain ⟨hperm, htake⟩ := (ih (hlen i)).mp ho
      refine ⟨hperm.trans (swapAt_perm l k i), ?_⟩
      have hfirst := congrArg (List.take k) htake
      rw [take_swapAt hki (by omega), List.take_take, Nat.min_eq_left (by omega),
        List.take_append_of_le_length (by rw [List.length_take]; omega), List.take_take,
        Nat.min_self] at hfirst
      exact hfirst
    · rintro ⟨hperm, htake⟩
      have hk : k < o.length := by
        rw [hperm.length_eq]
        omega
      -- What comes first of the rest stands somewhere in the rest of `l`.
      have hrest : (o.drop k).Perm (l.drop k) := by
        apply (List.perm_append_left_iff (l.take k)).mp
        rw [List.take_append_drop, ← htake, List.take_append_drop]
        exact hperm
      have hmem : o[k] ∈ l.drop k := by
        apply hrest.mem_iff.mp
        rw [List.drop_eq_getElem_cons hk]
        exact List.mem_cons_self
      obtain ⟨j, hj, hget⟩ := List.mem_iff_getElem.mp hmem
      rw [List.length_drop] at hj
      rw [List.getElem_drop] at hget
      refine ⟨k + j, List.mem_range'_1.mpr ⟨by omega, by omega⟩, (ih (hlen (k + j))).mpr
        ⟨hperm.trans (swapAt_perm l k (k + j)).symm, ?_⟩⟩
      rw [take_swapAt (by omega) (by omega), hget, List.take_succ_eq_append_getElem hk, htake]

theorem mem_orderings_self {l o : List α} : o ∈ orderings l.length 0 l ↔ o.Perm l := by
  rw [mem_orderings (Nat.zero_add _), List.take_zero, List.take_zero]
  exact and_iff_left rfl

/-- Orderings that put different elements first are different. -/
theorem orderings_first {left k i : Nat} {l o : List α} (h : k + (left + 1) = l.length)
    (hki : k ≤ i) (hi : i < l.length) (ho : o ∈ orderings left (k + 1) (swapAt l k i)) :
    o.take (k + 1) = l.take k ++ [l[i]] := by
  have hlen : k + 1 + left = (swapAt l k i).length := by
    rw [length_swapAt]
    omega
  rw [((mem_orderings hlen).mp ho).2, take_swapAt hki hi]

theorem orderings_nodup {left k : Nat} {l : List α} (h : k + left = l.length) (hl : l.Nodup) :
    (orderings left k l).Nodup := by
  induction left generalizing k l with
  | zero => exact List.nodup_singleton l
  | succ left ih =>
    rw [orderings, List.nodup_flatMap]
    refine ⟨fun i _ => ih (by rw [length_swapAt]; omega) ((swapAt_perm l k i).nodup_iff.mpr hl),
      List.Pairwise.imp_of_mem (fun hi hj hne => ?_) List.nodup_range'⟩
    obtain ⟨hki, hil⟩ := List.mem_range'_1.mp hi
    obtain ⟨hkj, hjl⟩ := List.mem_range'_1.mp hj
    intro o hoi hoj
    have heq := (orderings_first h hki (by omega) hoi).symm.trans
      (orderings_first h hkj (by omega) hoj)
    have hget := List.singleton_inj.mp (List.append_cancel_left heq)
    exact hne ((hl.getElem_inj_iff).mp hget)

/-! ## Orders of the places -/

/-- The places of a list, in any order, give its entries in some order, and every order so. -/
theorem perm_iff_places {l l' : List α} (default : α) :
    l'.Perm l ↔ ∃ o : List Nat, o.Perm (List.range l.length) ∧
      l' = o.map (fun i => l.getD i default) := by
  have hall : l = (List.range l.length).map (fun i => l.getD i default) := by
    refine List.ext_getElem (by simp) (fun i hi _ => ?_)
    rw [List.getElem_map, List.getElem_range, List.getD_eq_getElem _ _ hi]
  constructor
  · intro h
    rw [hall] at h
    have hcomp := List.eq_map_comp_perm (fun i => l.getD i default)
    rw [← congrFun (congrFun hcomp l') (List.range l.length)] at h
    obtain ⟨o, rfl, ho⟩ := h
    exact ⟨o, ho, rfl⟩
  · rintro ⟨o, ho, rfl⟩
    exact (ho.map _).trans (List.Perm.of_eq hall.symm)

/-- Where no entry stands twice, different orders of the places give different lists. -/
theorem places_inj {l : List α} (hl : l.Nodup) (default : α) {o p : List Nat}
    (ho : ∀ i ∈ o, i < l.length) (hp : ∀ i ∈ p, i < l.length)
    (h : o.map (fun i => l.getD i default) = p.map (fun i => l.getD i default)) : o = p := by
  have hlen : o.length = p.length := by
    simpa only [List.length_map] using congrArg List.length h
  refine List.ext_getElem hlen (fun i hi hi' => ?_)
  have hget := (List.getElem_of_eq h (by rwa [List.length_map])).symm
  rw [List.getElem_map, List.getElem_map,
    List.getD_eq_getElem _ _ (hp _ (List.getElem_mem hi')),
    List.getD_eq_getElem _ _ (ho _ (List.getElem_mem hi)), hl.getElem_inj_iff] at hget
  exact hget.symm

end Lib
end ZvolRescue
