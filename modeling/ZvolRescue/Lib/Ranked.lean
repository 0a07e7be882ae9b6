import Mathlib.Data.List.Sort
import Mathlib.Data.Prod.Lex

/-!
# Sorting by a key

A list sorted by a key that no two elements share holds at position `i` the element with
exactly `i` keys below its own (`countP_of_sortByKey`).
-/

namespace ZvolRescue
namespace Lib

variable {α β : Type*} [LinearOrder β]

/-- The list in the order of the keys; elements of one key keep their order. -/
def sortByKey (key : α → β) (l : List α) : List α := l.insertionSort (fun a b => key a ≤ key b)

theorem sortByKey_perm (key : α → β) (l : List α) : (sortByKey key l).Perm l :=
  List.perm_insertionSort _ l

theorem sortByKey_map {γ : Type*} (key : α → β) (f : γ → α) (l : List γ) :
    sortByKey key (l.map f) = (sortByKey (fun c => key (f c)) l).map f :=
  (List.map_insertionSort (fun a b => key (f a) ≤ key (f b)) (fun a b => key a ≤ key b) f l
    (fun _ _ _ _ => Iff.rfl)).symm

theorem mem_sortByKey {key : α → β} {l : List α} {a : α} : a ∈ sortByKey key l ↔ a ∈ l :=
  (sortByKey_perm key l).mem_iff

theorem sortByKey_sorted (key : α → β) (l : List α) :
    (sortByKey key l).Pairwise (fun a b => key a ≤ key b) := by
  have htotal : Std.Total (fun a b => key a ≤ key b) := ⟨fun a b => le_total (key a) (key b)⟩
  have htrans : IsTrans α (fun a b => key a ≤ key b) := ⟨fun _ _ _ => le_trans⟩
  exact List.pairwise_insertionSort _ l

/-- Where the keys rise, the keys below that of the element at `i` are those before it. -/
theorem countP_of_pairwise_lt {key : α → β} {l : List α}
    (h : l.Pairwise (fun a b => key a < key b)) {i : Nat} {a : α} (hi : l[i]? = some a) :
    l.countP (fun b => key b < key a) = i := by
  induction l generalizing i with
  | nil => simp at hi
  | cons b l ih =>
    obtain ⟨hb, hl⟩ := List.pairwise_cons.mp h
    cases i with
    | zero =>
      simp only [List.getElem?_cons_zero, Option.some.injEq] at hi
      subst hi
      rw [List.countP_cons_of_neg (by simp), List.countP_eq_zero]
      intro c hc
      simpa using (hb c hc).le
    | succ i =>
      rw [List.getElem?_cons_succ] at hi
      have hlt : key b < key a := hb a (List.mem_of_getElem? hi)
      rw [List.countP_cons_of_pos (by simpa using hlt), ih hl hi]

/-- The element at position `i` of a list sorted by distinct keys has `i` keys below its own. -/
theorem countP_of_sortByKey {key : α → β} {l : List α} (h : (l.map key).Nodup) {i : Nat} {a : α}
    (hi : (sortByKey key l)[i]? = some a) : l.countP (fun b => key b < key a) = i := by
  have hperm := sortByKey_perm key l
  have hnodup : (sortByKey key l).Pairwise (fun a b => key a ≠ key b) :=
    List.pairwise_map.mp ((hperm.map key).nodup_iff.mpr h)
  have hlt : (sortByKey key l).Pairwise (fun a b => key a < key b) :=
    (sortByKey_sorted key l).imp₂ (fun _ _ hle hne => lt_of_le_of_ne hle hne) hnodup
  rw [← hperm.countP_eq]
  exact countP_of_pairwise_lt hlt hi

/-- The first of the elements with the least key. -/
def FirstLeast (key : α → β) (l : List α) (a : α) : Prop :=
  ∃ pre post, l = pre ++ a :: post ∧ (∀ b ∈ pre, key a < key b) ∧ ∀ b ∈ post, key a ≤ key b

namespace FirstLeast

variable {key : α → β} {l : List α} {a b : α}

theorem mem (h : FirstLeast key l a) : a ∈ l := by
  obtain ⟨pre, post, rfl, -, -⟩ := h
  exact List.mem_append_right _ List.mem_cons_self

theorem le (h : FirstLeast key l a) : ∀ x ∈ l, key a ≤ key x := by
  obtain ⟨pre, post, rfl, hpre, hpost⟩ := h
  intro x hx
  rcases List.mem_append.mp hx with hx | hx
  · exact (hpre x hx).le
  · rcases List.mem_cons.mp hx with rfl | hx
    · exact le_refl _
    · exact hpost x hx

theorem cons_iff : FirstLeast key (b :: l) a ↔
    b = a ∧ (∀ x ∈ l, key a ≤ key x) ∨ key a < key b ∧ FirstLeast key l a := by
  constructor
  · rintro ⟨pre, post, heq, hpre, hpost⟩
    cases pre with
    | nil =>
      obtain ⟨rfl, rfl⟩ := List.cons.inj heq
      exact Or.inl ⟨rfl, hpost⟩
    | cons c pre =>
      obtain ⟨rfl, rfl⟩ := List.cons.inj heq
      exact Or.inr ⟨hpre b List.mem_cons_self, pre, post, rfl,
        fun x hx => hpre x (List.mem_cons_of_mem b hx), hpost⟩
  · rintro (⟨rfl, hle⟩ | ⟨hlt, pre, post, rfl, hpre, hpost⟩)
    · exact ⟨[], l, rfl, fun _ hx => (List.not_mem_nil hx).elim, hle⟩
    · exact ⟨b :: pre, post, rfl, List.forall_mem_cons.mpr ⟨hlt, hpre⟩, hpost⟩

theorem unique (h : FirstLeast key l a) (h' : FirstLeast key l b) : a = b := by
  induction l with
  | nil => exact absurd h.mem List.not_mem_nil
  | cons x l ih =>
    rcases cons_iff.mp h with ⟨rfl, hle⟩ | ⟨hlt, h⟩
    · rcases cons_iff.mp h' with ⟨rfl, -⟩ | ⟨hlt, h'⟩
      · rfl
      · exact absurd (hle b h'.mem) (not_le_of_gt hlt)
    · rcases cons_iff.mp h' with ⟨rfl, hle⟩ | ⟨-, h'⟩
      · exact absurd (hle a h.mem) (not_le_of_gt hlt)
      · exact ih h h'

/-- It stays the first if nothing behind it is less. -/
theorem append_left (h : FirstLeast key l a) {l' : List α} (hle : ∀ x ∈ l', key a ≤ key x) :
    FirstLeast key (l ++ l') a := by
  obtain ⟨pre, post, rfl, hpre, hpost⟩ := h
  refine ⟨pre, post ++ l', by rw [List.append_assoc, List.cons_append], hpre, fun x hx => ?_⟩
  rcases List.mem_append.mp hx with hx | hx
  · exact hpost x hx
  · exact hle x hx

/-- What is less than all before it takes the place. -/
theorem append_right {l' : List α} (h : FirstLeast key l' a) (hlt : ∀ x ∈ l, key a < key x) :
    FirstLeast key (l ++ l') a := by
  obtain ⟨pre, post, rfl, hpre, hpost⟩ := h
  refine ⟨l ++ pre, post, by rw [List.append_assoc], fun x hx => ?_, hpost⟩
  rcases List.mem_append.mp hx with hx | hx
  · exact hlt x hx
  · exact hpre x hx

end FirstLeast

/-- The first element of the sorted list is the first of those with the least key. -/
theorem head?_sortByKey_iff {key : α → β} {l : List α} {a : α} :
    (sortByKey key l).head? = some a ↔
      ∃ pre post, l = pre ++ a :: post ∧ (∀ b ∈ pre, key a < key b) ∧
        ∀ b ∈ post, key a ≤ key b := by
  suffices hfirst : (sortByKey key l).head? = some a ↔ FirstLeast key l a from hfirst
  induction l generalizing a with
  | nil => simp [sortByKey, FirstLeast]
  | cons b l ih =>
    have hsort : sortByKey key (b :: l) =
        (sortByKey key l).orderedInsert (fun x y => key x ≤ key y) b := rfl
    rw [hsort, FirstLeast.cons_iff]
    cases hl : sortByKey key l with
    | nil =>
      have hempty : l = [] := List.Perm.nil_eq (hl ▸ (sortByKey_perm key l)) |>.symm
      simp [hempty, FirstLeast]
    | cons h rest =>
      have hh : FirstLeast key l h := ih.mp (by rw [hl, List.head?_cons])
      by_cases hle : key b ≤ key h
      · rw [List.orderedInsert_cons_of_le (fun x y => key x ≤ key y) _ hle, List.head?_cons,
          Option.some.injEq]
        constructor
        · rintro rfl
          exact Or.inl ⟨rfl, fun x hx => hle.trans (hh.le x hx)⟩
        · rintro (⟨rfl, -⟩ | ⟨hlt, ha⟩)
          · rfl
          · exact absurd hlt (not_lt.mpr (hle.trans (hh.le a ha.mem)))
      · rw [List.orderedInsert_of_not_le (fun x y => key x ≤ key y) _ hle, List.head?_cons,
          Option.some.injEq]
        constructor
        · rintro rfl
          exact Or.inr ⟨not_le.mp hle, hh⟩
        · rintro (⟨rfl, hleast⟩ | ⟨-, ha⟩)
          · exact absurd (hleast h hh.mem) hle
          · have hhead := ih.mpr ha
            rw [hl, List.head?_cons] at hhead
            exact Option.some.inj hhead

/-- In a list whose keys rise the first element that satisfies `p` is the one of the least key. -/
theorem find?_of_pairwise_lt {key : α → β} {l : List α}
    (h : l.Pairwise (fun a b => key a < key b)) {p : α → Bool} {k : β} :
    (l.find? p).map key = some k ↔
      (∃ a ∈ l, p a = true ∧ key a = k) ∧ ∀ a ∈ l, p a = true → k ≤ key a := by
  induction l with
  | nil => simp
  | cons b l ih =>
    obtain ⟨hb, hl⟩ := List.pairwise_cons.mp h
    by_cases hp : p b = true
    · rw [List.find?_cons_of_pos hp, Option.map_some, Option.some.injEq]
      constructor
      · rintro rfl
        refine ⟨⟨b, List.mem_cons_self, hp, rfl⟩, fun a ha _ => ?_⟩
        exact (List.mem_cons.mp ha).elim (fun heq => by rw [heq]) (fun ha => (hb a ha).le)
      · rintro ⟨⟨a, ha, -, rfl⟩, hle⟩
        rcases List.mem_cons.mp ha with rfl | ha
        · rfl
        · exact absurd (hb a ha) (not_lt.mpr (hle b List.mem_cons_self hp))
    · rw [List.find?_cons_of_neg hp, ih hl]
      simp [hp]

end Lib
end ZvolRescue
