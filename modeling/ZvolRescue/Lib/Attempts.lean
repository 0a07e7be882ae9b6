import Mathlib.Data.List.Basic

/-!
# Attempts, one after the other

Every attempt fails, finds nothing or finds something.  `firstSome` makes them in order: a
failure ends it as much as a find does.
-/

namespace ZvolRescue
namespace Lib

variable {α β ε : Type*}

/-- What the first attempt finds that finds something; a failure before it fails. -/
def firstSome (attempt : α → Except ε (Option β)) : List α → Except ε (Option β)
  | [] => .ok none
  | a :: l =>
    match attempt a with
    | .error e => .error e
    | .ok (some b) => .ok (some b)
    | .ok none => firstSome attempt l

variable {attempt : α → Except ε (Option β)}

theorem firstSome_eq_none {l : List α} (h : ∀ a ∈ l, attempt a = .ok none) :
    firstSome attempt l = .ok none := by
  induction l with
  | nil => rfl
  | cons a l ih =>
    obtain ⟨hfirst, hrest⟩ := List.forall_mem_cons.mp h
    rw [firstSome, hfirst]
    exact ih hrest

theorem of_firstSome_eq_none {l : List α} (h : firstSome attempt l = .ok none) :
    ∀ a ∈ l, attempt a = .ok none := by
  induction l with
  | nil => exact fun a ha => absurd ha List.not_mem_nil
  | cons a l ih =>
    rw [firstSome] at h
    cases hattempt : attempt a with
    | error e =>
      rw [hattempt] at h
      cases h
    | ok found =>
      cases found with
      | some b =>
        rw [hattempt] at h
        cases h
      | none =>
        rw [hattempt] at h
        exact List.forall_mem_cons.mpr ⟨hattempt, ih h⟩

/-- What is found is what some attempt found. -/
theorem mem_of_firstSome {l : List α} {b : β} (h : firstSome attempt l = .ok (some b)) :
    ∃ a ∈ l, attempt a = .ok (some b) := by
  induction l with
  | nil => cases h
  | cons a l ih =>
    rw [firstSome] at h
    cases hattempt : attempt a with
    | error e =>
      rw [hattempt] at h
      cases h
    | ok found =>
      rw [hattempt] at h
      cases found with
      | some c =>
        cases h
        exact ⟨a, List.mem_cons_self, hattempt⟩
      | none =>
        obtain ⟨a', ha', hb⟩ := ih h
        exact ⟨a', List.mem_cons_of_mem _ ha', hb⟩

/-- It does not fail if and only if no attempt fails that comes before the first find. -/
theorem firstSome_isOk_iff {l : List α} :
    (∃ r, firstSome attempt l = .ok r) ↔
      ∀ before a after, l = before ++ a :: after →
        (∀ b ∈ before, ¬ ∃ c, attempt b = .ok (some c)) → ∃ r, attempt a = .ok r := by
  induction l with
  | nil =>
    refine iff_of_true ⟨none, rfl⟩ ?_
    intro before a after heq
    exact absurd heq (List.append_ne_nil_of_right_ne_nil _ (List.cons_ne_nil _ _)).symm
  | cons a l ih =>
    rw [firstSome]
    cases hattempt : attempt a with
    | error e =>
      refine iff_of_false (by rintro ⟨r, hr⟩; cases hr) ?_
      intro h
      obtain ⟨r, hr⟩ := h [] a l rfl (fun b hb => absurd hb List.not_mem_nil)
      rw [hattempt] at hr
      cases hr
    | ok found =>
      cases found with
      | some b =>
        refine iff_of_true ⟨some b, rfl⟩ ?_
        intro before a' after heq hbefore
        rcases List.cons_eq_append_iff.mp heq with ⟨rfl, hcons⟩ | ⟨before, rfl, -⟩
        · cases hcons
          exact ⟨_, hattempt⟩
        · exact absurd ⟨b, hattempt⟩ (hbefore a List.mem_cons_self)
      | none =>
        simp only
        rw [ih]
        constructor
        · intro h before a' after heq hbefore
          rcases List.cons_eq_append_iff.mp heq with ⟨rfl, hcons⟩ | ⟨before, rfl, hrest⟩
          · cases hcons
            exact ⟨_, hattempt⟩
          · exact h before a' after hrest (fun b hb => hbefore b (List.mem_cons_of_mem _ hb))
        · intro h before a' after heq hbefore
          refine h (a :: before) a' after (by rw [heq, List.cons_append]) ?_
          rintro b hb ⟨c, hc⟩
          rcases List.mem_cons.mp hb with rfl | hb
          · rw [hattempt] at hc
            cases hc
          · exact hbefore b hb ⟨c, hc⟩

/-- Attempts that fail may be left out where there was no failure. -/
theorem firstSome_filter {keep : α → Bool} (hkeep : ∀ a r, attempt a = .ok r → keep a = true)
    {l : List α} {r : Option β} (h : firstSome attempt l = .ok r) :
    firstSome attempt (l.filter keep) = .ok r := by
  induction l with
  | nil => exact h
  | cons a l ih =>
    rw [firstSome] at h
    cases hattempt : attempt a with
    | error e =>
      rw [hattempt] at h
      cases h
    | ok found =>
      rw [List.filter_cons_of_pos (hkeep a found hattempt), firstSome, hattempt]
      rw [hattempt] at h
      cases found with
      | some b => exact h
      | none => exact ih h

end Lib
end ZvolRescue
