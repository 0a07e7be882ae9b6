import Mathlib.Data.List.Induction
import Mathlib.Order.Defs.LinearOrder
import Mathlib.Order.Lattice

/-!
# The element of the largest key

Of several elements with the largest key a scan keeps the first or the last.  Where elements of
one key are equal, the order of the list makes no difference (`firstMax_perm`, `lastMax_perm`).
-/

namespace ZvolRescue
namespace Lib

section Newest

variable {α β : Type*} [LinearOrder β] (key : α → β)

/-- Keep what was there, unless `a` has a larger key. -/
def newer (best : Option α) (a : α) : Option α :=
  match best with
  | none => some a
  | some b => if key b < key a then some a else some b

/-- The first element with the largest key. -/
def firstMax (l : List α) : Option α := l.foldl (newer key) none

/-- Take `a`, unless what was there has a larger key. -/
def newerOrEqual (best : Option α) (a : α) : Option α :=
  match best with
  | none => some a
  | some b => if key a < key b then some b else some a

/-- The last element with the largest key. -/
def lastMax (l : List α) : Option α := l.foldl (newerOrEqual key) none

variable {key} {l l' : List α} {a : α}

/-- Nothing in the list has a larger key. -/
def IsMax (key : α → β) (l : List α) (a : α) : Prop := a ∈ l ∧ ∀ b ∈ l, key b ≤ key a

theorem IsMax.concat {l : List α} {a b : α} (h : IsMax key l b) (hle : key a ≤ key b) :
    IsMax key (l ++ [a]) b := by
  refine ⟨List.mem_append_left _ h.1, fun c hc => ?_⟩
  rcases List.mem_append.mp hc with hc | hc
  · exact h.2 c hc
  · rw [List.mem_singleton.mp hc]
    exact hle

theorem IsMax.concat_self {l : List α} {a : α} (h : ∀ b ∈ l, key b ≤ key a) :
    IsMax key (l ++ [a]) a := by
  refine ⟨by simp, fun c hc => ?_⟩
  rcases List.mem_append.mp hc with hc | hc
  · exact h c hc
  · rw [List.mem_singleton.mp hc]

/-- A scan that keeps one of two elements, of a key no smaller, ends with a largest one. -/
theorem isMax_foldl {step : Option α → α → Option α} (hnone : ∀ a, step none a = some a)
    (hsome : ∀ b a, step (some b) a = some b ∧ key a ≤ key b ∨
      step (some b) a = some a ∧ key b ≤ key a) (l : List α) :
    l = [] ∧ l.foldl step none = none ∨ ∃ a, l.foldl step none = some a ∧ IsMax key l a := by
  induction l using List.reverseRecOn with
  | nil => exact .inl ⟨rfl, rfl⟩
  | append_singleton l a ih =>
    rw [List.foldl_append, List.foldl_cons, List.foldl_nil]
    rcases ih with ⟨rfl, hfold⟩ | ⟨b, hfold, hmax⟩
    · rw [hfold, hnone]
      exact .inr ⟨a, rfl, IsMax.concat_self (by simp)⟩
    · rw [hfold]
      rcases hsome b a with ⟨hstep, hle⟩ | ⟨hstep, hle⟩
      · exact .inr ⟨b, hstep, hmax.concat hle⟩
      · exact .inr ⟨a, hstep, IsMax.concat_self (fun c hc => le_trans (hmax.2 c hc) hle)⟩

variable (key l) in
theorem firstMax_cases :
    l = [] ∧ firstMax key l = none ∨ ∃ a, firstMax key l = some a ∧ IsMax key l a := by
  refine isMax_foldl (fun _ => rfl) (fun b a => ?_) l
  rw [newer]
  split
  · rename_i hlt
    exact .inr ⟨rfl, le_of_lt hlt⟩
  · rename_i hle
    exact .inl ⟨rfl, not_lt.mp hle⟩

variable (key l) in
theorem lastMax_cases :
    l = [] ∧ lastMax key l = none ∨ ∃ a, lastMax key l = some a ∧ IsMax key l a := by
  refine isMax_foldl (fun _ => rfl) (fun b a => ?_) l
  rw [newerOrEqual]
  split
  · rename_i hlt
    exact .inl ⟨rfl, le_of_lt hlt⟩
  · rename_i hle
    exact .inr ⟨rfl, not_lt.mp hle⟩

theorem firstMax_isMax (h : firstMax key l = some a) : IsMax key l a := by
  rcases firstMax_cases key l with ⟨_, hnone⟩ | ⟨b, hb, hmax⟩
  · rw [hnone] at h
    cases h
  · rw [hb] at h
    cases h
    exact hmax

theorem lastMax_isMax (h : lastMax key l = some a) : IsMax key l a := by
  rcases lastMax_cases key l with ⟨_, hnone⟩ | ⟨b, hb, hmax⟩
  · rw [hnone] at h
    cases h
  · rw [hb] at h
    cases h
    exact hmax

theorem IsMax.key_eq {b : α} (ha : IsMax key l a) (hb : IsMax key l b) : key a = key b :=
  le_antisymm (hb.2 a ha.1) (ha.2 b hb.1)

theorem IsMax.perm (h : l.Perm l') (ha : IsMax key l a) : IsMax key l' a :=
  ⟨h.mem_iff.mp ha.1, fun b hb => ha.2 b (h.mem_iff.mpr hb)⟩

/-- In a list in ascending order of a rank, the first of those with the largest key has the least
rank of them. -/
theorem firstMax_least {γ : Type*} [LinearOrder γ] {rank : α → γ}
    (hsorted : l.Pairwise (fun a b => rank a < rank b)) (h : firstMax key l = some a) :
    ∀ b ∈ l, key b < key a ∨ key b = key a ∧ rank a ≤ rank b := by
  induction l using List.reverseRecOn generalizing a with
  | nil => simp
  | append_singleton l x ih =>
    obtain ⟨hl, -, hx⟩ := List.pairwise_append.mp hsorted
    have hstep : newer key (firstMax key l) x = some a := by
      rwa [firstMax, List.foldl_append] at h
    intro b hb
    rcases firstMax_cases key l with ⟨rfl, hnone⟩ | ⟨old, hold, hmax⟩
    · rw [hnone] at hstep
      cases hstep
      rw [List.mem_singleton.mp hb]
      exact .inr ⟨rfl, le_rfl⟩
    rw [hold, newer] at hstep
    split at hstep
    · rename_i hlt
      cases hstep
      rcases List.mem_append.mp hb with hb | hb
      · exact .inl (lt_of_le_of_lt (hmax.2 b hb) hlt)
      · rw [List.mem_singleton.mp hb]
        exact .inr ⟨rfl, le_rfl⟩
    · rename_i hle
      cases hstep
      rcases List.mem_append.mp hb with hb | hb
      · exact ih hl hold b hb
      · rw [List.mem_singleton.mp hb]
        exact (lt_or_eq_of_le (not_lt.mp hle)).imp id
          (fun heq => ⟨heq, le_of_lt (hx _ hmax.1 x (List.mem_singleton_self x))⟩)

/-- What a scan ends with. -/
def Ends (key : α → β) (scan : List α → Option α) : Prop :=
  ∀ l, l = [] ∧ scan l = none ∨ ∃ a, scan l = some a ∧ IsMax key l a

theorem Ends.perm {scan : List α → Option α} (hscan : Ends key scan) {γ : Type*} (f : α → γ)
    (h : l.Perm l') (hagree : ∀ a ∈ l, ∀ b ∈ l, key a = key b → f a = f b) :
    (scan l).map f = (scan l').map f := by
  rcases hscan l with ⟨rfl, hnone⟩ | ⟨a, ha, hmax⟩
  · rw [List.nil_perm.mp h]
  · rcases hscan l' with ⟨rfl, _⟩ | ⟨b, hb, hmax'⟩
    · rw [List.perm_nil.mp h]
    · have hb' := hmax'.perm h.symm
      rw [ha, hb, Option.map_some, Option.map_some, hagree a hmax.1 b hb'.1 (hmax.key_eq hb')]

/-- What is kept is the same for every order of a list whose elements of one key agree. -/
theorem firstMax_perm {γ : Type*} (f : α → γ) (h : l.Perm l')
    (hagree : ∀ a ∈ l, ∀ b ∈ l, key a = key b → f a = f b) :
    (firstMax key l).map f = (firstMax key l').map f :=
  Ends.perm (firstMax_cases key) f h hagree

theorem lastMax_perm {γ : Type*} (f : α → γ) (h : l.Perm l')
    (hagree : ∀ a ∈ l, ∀ b ∈ l, key a = key b → f a = f b) :
    (lastMax key l).map f = (lastMax key l').map f :=
  Ends.perm (lastMax_cases key) f h hagree

theorem lastMax_map {γ : Type*} (f : γ → α) (l : List γ) :
    lastMax key (l.map f) = (lastMax (fun c => key (f c)) l).map f := by
  have hstep : ∀ (best : Option γ) (c : γ), newerOrEqual key (best.map f) (f c) =
      (newerOrEqual (fun c => key (f c)) best c).map f := by
    intro best c
    cases best with
    | none => rfl
    | some b => exact (apply_ite (Option.map f) (key (f c) < key (f b)) (some b) (some c)).symm
  induction l using List.reverseRecOn with
  | nil => rfl
  | append_singleton l c ih =>
    rw [lastMax] at ih ⊢
    rw [List.map_append, List.foldl_append, ih, lastMax, lastMax, List.foldl_append]
    exact hstep _ c

end Newest

end Lib
end ZvolRescue
