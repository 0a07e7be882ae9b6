import Mathlib.Data.List.Basic
import Mathlib.Order.Lattice

/-!
# The first attempt that settles

Each element of a list is attempted in the state that the attempts before it left, until one
settles.  `Passes` says that none of a list does.
-/

namespace ZvolRescue
namespace Lib

variable {α β S : Type} (attempt : S → α → Option β × S)

/-- What the first attempt that settles gives, if one does, and the state that is left. -/
def tryEach : List α → S → Option β × S
  | [], x => (none, x)
  | a :: l, x =>
    match (attempt x a).1 with
    | some b => (some b, (attempt x a).2)
    | none => tryEach l (attempt x a).2

/-- The state that the attempts leave. -/
def passing (x : S) (l : List α) : S := l.foldl (fun x a => (attempt x a).2) x

/-- No attempt settles. -/
def Passes (x : S) (l : List α) : Prop :=
  ∀ front a back, l = front ++ a :: back → (attempt (passing attempt x front) a).1 = none

variable {attempt} {x : S} {a : α} {l : List α}

theorem passes_nil : Passes attempt x [] := by
  intro front a back h
  simp at h

theorem passes_cons :
    Passes attempt x (a :: l) ↔
      (attempt x a).1 = none ∧ Passes attempt (attempt x a).2 l := by
  constructor
  · intro h
    exact ⟨h [] a l rfl, fun front b back hsplit => h (a :: front) b back (by rw [hsplit]; rfl)⟩
  · intro h front b back hsplit
    cases front with
    | nil =>
      cases hsplit
      exact h.1
    | cons c front =>
      cases hsplit
      exact h.2 front b back rfl

theorem passes_append {l' : List α} :
    Passes attempt x (l ++ l') ↔
      Passes attempt x l ∧ Passes attempt (passing attempt x l) l' := by
  induction l generalizing x with
  | nil => exact ⟨fun h => ⟨passes_nil, h⟩, fun h => h.2⟩
  | cons a l ih =>
    rw [List.cons_append, passes_cons, passes_cons, ih, and_assoc]
    rfl

/-- An attempt settles after others that did not. -/
theorem tryEach_eq_some {b : β} {y : S} :
    tryEach attempt l x = (some b, y) ↔ ∃ front a back, l = front ++ a :: back ∧
      Passes attempt x front ∧ attempt (passing attempt x front) a = (some b, y) := by
  induction l generalizing x with
  | nil => simp [tryEach]
  | cons c l ih =>
    rw [tryEach]
    cases hc : (attempt x c).1 with
    | some b' =>
      constructor
      · intro h
        refine ⟨[], c, l, rfl, passes_nil, ?_⟩
        rw [← h]
        exact Prod.ext hc rfl
      · intro h
        obtain ⟨front, a, back, hsplit, hpasses, hsettles⟩ := h
        cases front with
        | nil =>
          cases hsplit
          rw [← hsettles]
          exact Prod.ext hc.symm rfl
        | cons d front =>
          cases hsplit
          rw [(passes_cons.mp hpasses).1] at hc
          cases hc
    | none =>
      show tryEach attempt l (attempt x c).2 = (some b, y) ↔ _
      rw [ih]
      constructor
      · intro h
        obtain ⟨front, a, back, rfl, hpasses, hsettles⟩ := h
        exact ⟨c :: front, a, back, rfl, passes_cons.mpr ⟨hc, hpasses⟩, hsettles⟩
      · intro h
        obtain ⟨front, a, back, hsplit, hpasses, hsettles⟩ := h
        cases front with
        | nil =>
          cases hsplit
          have hsome : (attempt x c).1 = some b := congrArg Prod.fst hsettles
          rw [hsome] at hc
          cases hc
        | cons d front =>
          cases hsplit
          exact ⟨front, a, back, rfl, (passes_cons.mp hpasses).2, hsettles⟩

/-- None settles where each passes. -/
theorem tryEach_eq_none {y : S} :
    tryEach attempt l x = (none, y) ↔ Passes attempt x l ∧ passing attempt x l = y := by
  induction l generalizing x with
  | nil => simp [tryEach, passes_nil, passing]
  | cons c l ih =>
    rw [tryEach, passes_cons]
    cases hc : (attempt x c).1 with
    | some b => simp
    | none =>
      show tryEach attempt l (attempt x c).2 = (none, y) ↔ _
      rw [ih, and_iff_right rfl]
      rfl

/-! ## Attempts in order -/

section Ordered

variable {κ : Type} [LinearOrder κ] (key : α → κ)

/-- The state in which an element is attempted: after those of a higher key. -/
def reached (attempt : S → α → Option β × S) (x : S) (l : List α) (a : α) : S :=
  passing attempt x (l.filter (fun b => key a < key b))

variable {key}

/-- In descending order, those of a higher key are those in front. -/
theorem filter_front {front back : List α} (h : (front ++ a :: back).Pairwise
    (fun b c => key c < key b)) : (front ++ a :: back).filter (fun b => key a < key b) = front := by
  obtain ⟨-, hback, hfront⟩ := List.pairwise_append.mp h
  have hall : front.filter (fun b => key a < key b) = front :=
    List.filter_eq_self.mpr (fun b hb => decide_eq_true (hfront b hb a List.mem_cons_self))
  have hnone : (a :: back).filter (fun b => key a < key b) = [] := by
    rw [List.filter_eq_nil_iff]
    intro b hb
    rw [decide_eq_true_eq, not_lt]
    rcases List.mem_cons.mp hb with rfl | hb
    · exact le_refl _
    · exact le_of_lt ((List.pairwise_cons.mp hback).1 b hb)
  rw [List.filter_append, hall, hnone, List.append_nil]

theorem filter_upto {front back : List α} (h : (front ++ a :: back).Pairwise
    (fun b c => key c < key b)) :
    (front ++ a :: back).filter (fun b => key a ≤ key b) = front ++ [a] := by
  obtain ⟨-, hback, hfront⟩ := List.pairwise_append.mp h
  have hall : front.filter (fun b => key a ≤ key b) = front :=
    List.filter_eq_self.mpr (fun b hb =>
      decide_eq_true (le_of_lt (hfront b hb a List.mem_cons_self)))
  have hnone : back.filter (fun b => key a ≤ key b) = [] := by
    rw [List.filter_eq_nil_iff]
    intro b hb
    rw [decide_eq_true_eq, not_le]
    exact (List.pairwise_cons.mp hback).1 b hb
  rw [List.filter_append, hall, List.filter_cons, if_pos (decide_eq_true (le_refl _)), hnone]

/-- Where the keys descend, one is attempted in the state that those in front of it leave. -/
theorem reached_front {front back : List α} (h : (front ++ a :: back).Pairwise
    (fun b c => key c < key b)) :
    reached key attempt x (front ++ a :: back) a = passing attempt x front := by
  rw [reached, filter_front h]

theorem passes_iff_reached (h : l.Pairwise (fun b c => key c < key b)) :
    Passes attempt x l ↔ ∀ a ∈ l, (attempt (reached key attempt x l a) a).1 = none := by
  constructor
  · intro hpasses a ha
    obtain ⟨front, back, rfl⟩ := List.append_of_mem ha
    rw [reached_front h]
    exact hpasses front a back rfl
  · intro hall front a back hsplit
    subst hsplit
    have ha := hall a (by simp)
    rwa [reached_front h] at ha

/-- Those in front of one do not settle if and only if none of a higher key does. -/
theorem passes_front {front back : List α} (h : (front ++ a :: back).Pairwise
    (fun b c => key c < key b)) :
    Passes attempt x front ↔ ∀ c ∈ front ++ a :: back, key a < key c →
      (attempt (reached key attempt x (front ++ a :: back) c) c).1 = none := by
  have hsplit : ∀ before c after, (before ++ c :: after) ++ a :: back =
      before ++ c :: (after ++ a :: back) := by simp
  constructor
  · intro hpasses c hc hlt
    have hfront : c ∈ front := by
      rw [← filter_front h]
      exact List.mem_filter.mpr ⟨hc, decide_eq_true hlt⟩
    obtain ⟨before, after, rfl⟩ := List.append_of_mem hfront
    rw [hsplit] at h ⊢
    rw [reached_front h]
    exact hpasses before c after rfl
  · intro hpassed before c after hfront
    subst hfront
    have hlt : key a < key c := (List.pairwise_append.mp h).2.2 c (by simp) a List.mem_cons_self
    have hnone := hpassed c (by simp) hlt
    rw [hsplit] at h hnone
    rwa [reached_front h] at hnone

/-- In descending order, the first that settles is the highest that does. -/
theorem tryEach_reached (h : l.Pairwise (fun b c => key c < key b)) {b : β} {y : S} :
    tryEach attempt l x = (some b, y) ↔ ∃ a ∈ l,
      (∀ c ∈ l, key a < key c → (attempt (reached key attempt x l c) c).1 = none) ∧
        attempt (reached key attempt x l a) a = (some b, y) := by
  rw [tryEach_eq_some]
  constructor
  · intro hsome
    obtain ⟨front, a, back, rfl, hpasses, hsettles⟩ := hsome
    refine ⟨a, by simp, (passes_front h).mp hpasses, ?_⟩
    rw [reached_front h]
    exact hsettles
  · intro hreached
    obtain ⟨a, ha, hpassed, hsettles⟩ := hreached
    obtain ⟨front, back, rfl⟩ := List.append_of_mem ha
    rw [reached_front h] at hsettles
    exact ⟨front, a, back, rfl, (passes_front h).mpr hpassed, hsettles⟩

end Ordered

end Lib
end ZvolRescue
