import Mathlib.Data.List.Nodup
import Mathlib.Order.Lattice

/-!
# The first of each key

A stable sort by key, after which each element is dropped whose key is that of the one before,
keeps the first element of each key (`mem_dedup_mergeSort`).
-/

namespace ZvolRescue
namespace Lib

section Firsts

variable {α κ : Type} [DecidableEq κ] (key : α → κ)

/-- `a` is in the list, and the first there of its key. -/
def IsFirst (l : List α) (a : α) : Prop := l.find? (fun b => key b = key a) = some a

def dedupFrom (a : α) : List α → List α
  | [] => [a]
  | b :: l => if key b = key a then dedupFrom a l else a :: dedupFrom b l

/-- Drop what has the key of the element before it. -/
def dedup : List α → List α
  | [] => []
  | a :: l => dedupFrom key a l

variable {key} {l l' : List α} {a b : α}

namespace IsFirst

theorem mem (h : IsFirst key l a) : a ∈ l := List.mem_of_find?_eq_some h

theorem not_nil : ¬ IsFirst key [] a := by simp [IsFirst]

theorem cons_iff : IsFirst key (b :: l) a ↔ b = a ∨ key b ≠ key a ∧ IsFirst key l a := by
  by_cases hkey : key b = key a
  · have hne : ¬ (key b ≠ key a ∧ IsFirst key l a) := fun h => h.1 hkey
    simp [IsFirst, hkey]
  · have hne : b ≠ a := fun h => hkey (congrArg key h)
    simp [IsFirst, hkey, hne]

theorem append_iff : IsFirst key (l ++ l') a ↔
    IsFirst key l a ∨ (∀ b ∈ l, key b ≠ key a) ∧ IsFirst key l' a := by
  induction l with
  | nil => simp [not_nil]
  | cons b l ih =>
    rw [List.cons_append, cons_iff, cons_iff, ih]
    by_cases hkey : key b = key a
    · simp [hkey]
    · simp [hkey, or_assoc]

/-- Some element of each key is the first. -/
theorem exists_of_mem (h : b ∈ l) : ∃ a, key a = key b ∧ IsFirst key l a := by
  induction l with
  | nil => cases h
  | cons c l ih =>
    by_cases hkey : key c = key b
    · exact ⟨c, hkey, cons_iff.mpr (Or.inl rfl)⟩
    · rcases List.mem_cons.mp h with rfl | hin
      · exact absurd rfl hkey
      · obtain ⟨a, ha, hfirst⟩ := ih hin
        exact ⟨a, ha, cons_iff.mpr (Or.inr ⟨by rwa [ha], hfirst⟩)⟩

theorem unique (ha : IsFirst key l a) (hb : IsFirst key l b) (h : key a = key b) : a = b := by
  rw [IsFirst] at ha hb
  rw [h] at ha
  exact Option.some.inj (ha.symm.trans hb)

/-- Where no key stands twice every element is the first of its key. -/
theorem of_nodup (h : (l.map key).Nodup) (ha : a ∈ l) : IsFirst key l a := by
  have hfirst : ∃ b, key b = key a ∧ IsFirst key l b := exists_of_mem ha
  obtain ⟨b, hkey, hfirst⟩ := hfirst
  rwa [List.inj_on_of_nodup_map h hfirst.mem ha hkey] at hfirst

theorem filter_iff : IsFirst key l a ↔ (l.filter (fun b => key b = key a)).head? = some a := by
  rw [IsFirst, List.head?_filter]

end IsFirst

/-- What a sorted order of keys is. -/
structure Ordered (key : α → κ) (le : α → α → Bool) : Prop where
  trans : ∀ a b c, le a b → le b c → le a c
  total : ∀ a b, le a b || le b a
  antisymm : ∀ a b, le a b → le b a → key a = key b
  of_eq : ∀ a b, key a = key b → le a b

theorem ordered_key {κ : Type} [LinearOrder κ] (key : α → κ) :
    Ordered key (fun a b => key a ≤ key b) where
  trans a b c hab hbc := by
    rw [decide_eq_true_eq] at hab hbc ⊢
    exact le_trans hab hbc
  total a b := by
    rw [Bool.or_eq_true, decide_eq_true_eq, decide_eq_true_eq]
    exact le_total (key a) (key b)
  antisymm a b hab hba := by
    rw [decide_eq_true_eq] at hab hba
    exact le_antisymm hab hba
  of_eq a b h := by
    rw [decide_eq_true_eq]
    exact le_of_eq h

variable {le : α → α → Bool} (hle : Ordered key le)

include hle

omit [DecidableEq κ] in
/-- Past the elements of a key no other has it. -/
theorem Ordered.key_ne {c : α} (h : (b :: c :: l).Pairwise (fun a b => le a b))
    (hkey : key c ≠ key b) (ha : a ∈ c :: l) : key a ≠ key b := by
  obtain ⟨hb, hc⟩ := List.pairwise_cons.mp h
  intro heq
  rcases List.mem_cons.mp ha with rfl | hin
  · exact hkey heq
  · -- An element of the key of `b` after `c` would put `c` before `b`.
    have hcb : le c b :=
      hle.trans _ _ _ ((List.pairwise_cons.mp hc).1 a hin) (hle.of_eq _ _ heq)
    exact hkey (hle.antisymm _ _ hcb (hb c List.mem_cons_self))

theorem mem_dedupFrom (h : (b :: l).Pairwise (fun a b => le a b)) :
    a ∈ dedupFrom key b l ↔ IsFirst key (b :: l) a := by
  induction l generalizing b with
  | nil => simp [dedupFrom, IsFirst.cons_iff, IsFirst.not_nil, eq_comm]
  | cons c l ih =>
    obtain ⟨hb, hc⟩ := List.pairwise_cons.mp h
    rw [dedupFrom]
    by_cases hkey : key c = key b
    · have hbl : (b :: l).Pairwise (fun a b => le a b) :=
        List.pairwise_cons.mpr ⟨fun x hx => hb x (List.mem_cons_of_mem _ hx), hc.of_cons⟩
      rw [if_pos hkey, ih hbl, IsFirst.cons_iff, IsFirst.cons_iff, IsFirst.cons_iff]
      refine or_congr_right (and_congr_right (fun hne => ?_))
      have hca : c ≠ a := fun heq => hne (by rw [← hkey, heq])
      rw [hkey]
      simp [hca, hne]
    · rw [if_neg hkey, List.mem_cons, ih hc, IsFirst.cons_iff (b := b), eq_comm]
      exact or_congr_right ⟨fun hfirst => ⟨Ne.symm (hle.key_ne h hkey hfirst.mem), hfirst⟩,
        fun h => h.2⟩

theorem mem_dedup (h : l.Pairwise (fun a b => le a b)) : a ∈ dedup key l ↔ IsFirst key l a := by
  cases l with
  | nil => simp [dedup, IsFirst.not_nil]
  | cons b l => exact mem_dedupFrom hle h

/-- A stable sort keeps the elements of a key in their order. -/
theorem filter_mergeSort (k : κ) :
    (l.mergeSort le).filter (fun b => key b = k) = l.filter (fun b => key b = k) := by
  have hsame : (l.filter (fun b => key b = k)).Pairwise (fun a b => le a b) := by
    apply List.pairwise_of_forall_mem_list
    intro x hx y hy
    have hkx : key x = k := by simpa using (List.mem_filter.mp hx).2
    have hky : key y = k := by simpa using (List.mem_filter.mp hy).2
    exact hle.of_eq _ _ (hkx.trans hky.symm)
  have hsub : (l.filter (fun b => key b = k)).Sublist (l.mergeSort le) :=
    List.sublist_mergeSort hle.trans hle.total hsame List.filter_sublist
  have hfilter := hsub.filter (fun b => decide (key b = k))
  rw [List.filter_filter] at hfilter
  simp only [Bool.and_self] at hfilter
  have hlength := ((List.mergeSort_perm l le).filter (fun b => decide (key b = k))).length_eq
  exact (hfilter.eq_of_length hlength.symm).symm

/-- Sorting and dropping repeated keys keeps the first of each key. -/
theorem mem_dedup_mergeSort : a ∈ dedup key (l.mergeSort le) ↔ IsFirst key l a := by
  rw [mem_dedup hle (List.pairwise_mergeSort hle.trans hle.total l), IsFirst.filter_iff,
    filter_mergeSort hle, ← IsFirst.filter_iff]

theorem dedup_nodup (h : l.Pairwise (fun a b => le a b)) : ((dedup key l).map key).Nodup := by
  have hfrom : ∀ (l : List α) (b : α), (b :: l).Pairwise (fun a b => le a b) →
      ((dedupFrom key b l).map key).Nodup := by
    intro l
    induction l with
    | nil =>
      intro b _
      exact List.nodup_singleton _
    | cons c l ih =>
      intro b h
      obtain ⟨hb, hc⟩ := List.pairwise_cons.mp h
      rw [dedupFrom]
      by_cases hkey : key c = key b
      · rw [if_pos hkey]
        exact ih b (List.pairwise_cons.mpr
          ⟨fun x hx => hb x (List.mem_cons_of_mem _ hx), hc.of_cons⟩)
      · rw [if_neg hkey, List.map_cons, List.nodup_cons]
        refine ⟨fun hin => ?_, ih c hc⟩
        obtain ⟨a, ha, heq⟩ := List.mem_map.mp hin
        exact hle.key_ne h hkey ((mem_dedupFrom hle hc).mp ha).mem heq
  cases l with
  | nil => exact List.nodup_nil
  | cons b l => exact hfrom l b h

omit hle

section Resume

/-! Of a list `L` the part `pre` was read and `N` is read next.  What is kept, `C`, is first
in the list, and all of `pre` that is first is kept. -/

variable {L pre N rest C : List α} (hL : L = pre ++ (N ++ rest))
  (hsound : ∀ b ∈ C, key b = key a → IsFirst key L b)
  (hcomplete : ∀ b ∈ pre, key b = key a → IsFirst key L b → b ∈ C)

namespace IsFirst

include hL hcomplete in
theorem none_before (hC : ∀ b ∈ C, key b ≠ key a) : ∀ b ∈ pre, key b ≠ key a := by
  intro b hb hkey
  have hfirst : ∃ f, key f = key b ∧ IsFirst key pre f := exists_of_mem hb
  obtain ⟨f, hf, hfirst⟩ := hfirst
  have hfL : IsFirst key L f := by
    rw [hL, append_iff]
    exact Or.inl hfirst
  exact hC f (hcomplete f hfirst.mem (hf.trans hkey) hfL) (hf.trans hkey)

include hL hsound hcomplete

/-- What is kept of both is first in the list. -/
theorem of_next (hfirst : IsFirst key (C ++ N) a) : IsFirst key L a := by
  rcases append_iff.mp hfirst with hin | ⟨hC, hN⟩
  · exact hsound a hin.mem rfl
  · have hpre := none_before hL hcomplete hC
    rw [hL, append_iff]
    exact Or.inr ⟨hpre, append_iff.mpr (Or.inl hN)⟩

/-- What is first in the list is kept once it was read. -/
theorem next (hin : a ∈ pre ++ N) (hfirst : IsFirst key L a) : IsFirst key (C ++ N) a := by
  rw [append_iff]
  by_cases hC : ∃ b ∈ C, key b = key a
  · obtain ⟨b, hb, hkey⟩ := hC
    have hfirstC : ∃ f, key f = key b ∧ IsFirst key C f := exists_of_mem hb
    obtain ⟨f, hf, hfC⟩ := hfirstC
    have hfa : f = a := (hsound f hfC.mem (hf.trans hkey)).unique hfirst (hf.trans hkey)
    rw [hfa] at hfC
    exact Or.inl hfC
  · have hC : ∀ b ∈ C, key b ≠ key a := fun b hb hkey => hC ⟨b, hb, hkey⟩
    refine Or.inr ⟨hC, ?_⟩
    have hpre := none_before hL hcomplete hC
    have hinN : a ∈ N := by
      rcases List.mem_append.mp hin with hin | hin
      · exact absurd rfl (hpre a hin)
      · exact hin
    rw [hL, append_iff] at hfirst
    rcases hfirst with hfirst | ⟨-, hfirst⟩
    · exact absurd rfl (hpre a hfirst.mem)
    · rcases append_iff.mp hfirst with hN | ⟨hN, -⟩
      · exact hN
      · exact absurd rfl (hN a hinN)

end IsFirst

end Resume

end Firsts

end Lib
end ZvolRescue
