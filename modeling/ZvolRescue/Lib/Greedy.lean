import Mathlib.Data.List.Basic

/-!
# Doing without as much as possible

Elements are dropped one after another, each where a property still holds without it.  Where less
of a state never gains the property, nothing that was kept could be dropped in the end either
(`greedy_minimal`).
-/

namespace ZvolRescue
namespace Lib

section Greedy

variable {τ ι : Type*} (p : τ → Bool) (drop : ι → τ → τ)

/-- What is left of the state, and what was dropped. -/
def greedy : τ → List ι → τ × List ι
  | t, [] => (t, [])
  | t, i :: rest =>
    if p (drop i t) then ((greedy (drop i t) rest).1, i :: (greedy (drop i t) rest).2)
    else greedy t rest

variable {p drop} {t : τ} {l : List ι}

theorem greedy_cons_pos {i : ι} (h : p (drop i t) = true) : greedy p drop t (i :: l) =
    ((greedy p drop (drop i t) l).1, i :: (greedy p drop (drop i t) l).2) := by
  rw [greedy, if_pos h]

theorem greedy_cons_neg {i : ι} (h : ¬ p (drop i t) = true) :
    greedy p drop t (i :: l) = greedy p drop t l := by
  rw [greedy, if_neg h]

variable (p drop) in
theorem greedy_sublist (t : τ) (l : List ι) : (greedy p drop t l).2.Sublist l := by
  induction l generalizing t with
  | nil => exact List.Sublist.refl []
  | cons i l ih =>
    by_cases h : p (drop i t) = true
    · rw [greedy_cons_pos h]
      exact (ih _).cons_cons i
    · rw [greedy_cons_neg h]
      exact (ih t).cons i

variable (p drop) in
/-- The state is what the drops leave of it. -/
theorem greedy_foldl (t : τ) (l : List ι) :
    (greedy p drop t l).1 = (greedy p drop t l).2.foldl (fun t i => drop i t) t := by
  induction l generalizing t with
  | nil => rfl
  | cons i l ih =>
    by_cases h : p (drop i t) = true
    · rw [greedy_cons_pos h]
      exact ih _
    · rw [greedy_cons_neg h]
      exact ih t

/-- The property is not lost. -/
theorem greedy_holds (h : p t = true) : p (greedy p drop t l).1 = true := by
  induction l generalizing t with
  | nil => exact h
  | cons i l ih =>
    by_cases hdrop : p (drop i t) = true
    · rw [greedy_cons_pos hdrop]
      exact ih hdrop
    · rw [greedy_cons_neg hdrop]
      exact ih h

section Less

variable {le : τ → τ → Prop}

theorem greedy_le (hrefl : ∀ t, le t t) (htrans : ∀ a b c, le a b → le b c → le a c)
    (hdrop : ∀ i t, le (drop i t) t) (t : τ) (l : List ι) : le (greedy p drop t l).1 t := by
  induction l generalizing t with
  | nil => exact hrefl t
  | cons i l ih =>
    by_cases h : p (drop i t) = true
    · rw [greedy_cons_pos h]
      exact htrans _ _ _ (ih _) (hdrop i t)
    · rw [greedy_cons_neg h]
      exact ih t

/-- What was kept cannot be dropped from what is left. -/
theorem greedy_minimal (hrefl : ∀ t, le t t) (htrans : ∀ a b c, le a b → le b c → le a c)
    (hdrop : ∀ i t, le (drop i t) t) (hmono : ∀ i a b, le a b → le (drop i a) (drop i b))
    (hp : ∀ a b, le a b → p a = true → p b = true) {i : ι} (hi : i ∈ l)
    (hkept : i ∉ (greedy p drop t l).2) : p (drop i (greedy p drop t l).1) = false := by
  induction l generalizing t with
  | nil => cases hi
  | cons j l ih =>
    by_cases h : p (drop j t) = true
    · rw [greedy_cons_pos h] at hkept ⊢
      rw [List.mem_cons, not_or] at hkept
      exact ih ((List.mem_cons.mp hi).resolve_left hkept.1) hkept.2
    · rw [greedy_cons_neg h] at hkept ⊢
      by_cases hij : i = j
      · subst hij
        rw [Bool.eq_false_iff]
        intro hholds
        exact h (hp _ _ (hmono i _ _ (greedy_le hrefl htrans hdrop t l)) hholds)
      · exact ih ((List.mem_cons.mp hi).resolve_left hij) hkept

end Less

end Greedy

end Lib
end ZvolRescue
