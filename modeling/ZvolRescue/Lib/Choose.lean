import Mathlib.Data.List.Lex

/-!
# Enumerating the subsets of a range

`choose n k` lists the `k`-element subsets of `0..n`, each as an increasing list, by
the loop that pushes an index, recurses on the later ones and pops it again.
`mem_choose` says that the list has exactly the increasing lists of length `k` with
entries below `n`.
-/

namespace ZvolRescue
namespace Lib

/-- The loop over `start..start + left` with `cur` already picked: the round for `start`
picks it, and the remaining rounds are the same loop one index later. -/
def chooseFrom (k : Nat) : Nat → Nat → List Nat → List (List Nat)
  | 0, _, cur => if cur.length = k then [cur] else []
  | left + 1, start, cur =>
    if cur.length = k then [cur]
    else chooseFrom k left (start + 1) (cur ++ [start]) ++ chooseFrom k left (start + 1) cur

/-- The `k`-element subsets of `0..n`. -/
def choose (n k : Nat) : List (List Nat) := chooseFrom k n 0 []

/-- A continuation of a selection: increasing, and inside the range of the loop. -/
def Continues (start left : Nat) (t : List Nat) : Prop :=
  t.Pairwise (· < ·) ∧ ∀ x ∈ t, start ≤ x ∧ x < start + left

theorem Continues.nil (start left : Nat) : Continues start left [] :=
  ⟨List.Pairwise.nil, fun _ h => absurd h List.not_mem_nil⟩

theorem Continues.later {start left : Nat} {t : List Nat} (h : Continues (start + 1) left t) :
    Continues start (left + 1) t :=
  ⟨h.1, fun x hx => by have := h.2 x hx; omega⟩

theorem Continues.cons {start left : Nat} {t : List Nat} (h : Continues (start + 1) left t) :
    Continues start (left + 1) (start :: t) := by
  refine ⟨List.pairwise_cons.mpr ⟨fun x hx => (h.2 x hx).1, h.1⟩, fun x hx => ?_⟩
  rcases List.mem_cons.mp hx with rfl | hx
  · omega
  · have := h.2 x hx
    omega

/-- A continuation either picks `start` first or lies in the later rounds. -/
theorem Continues.split {start left : Nat} {t : List Nat} (h : Continues start (left + 1) t) :
    Continues (start + 1) left t ∨ ∃ u, t = start :: u ∧ Continues (start + 1) left u := by
  cases t with
  | nil => exact Or.inl (Continues.nil _ _)
  | cons x u =>
    have hpair := List.pairwise_cons.mp h.1
    have hu : ∀ y ∈ u, x < y ∧ y < start + (left + 1) :=
      fun y hy => ⟨hpair.1 y hy, (h.2 y (List.mem_cons_of_mem x hy)).2⟩
    have hx := h.2 x List.mem_cons_self
    rcases Nat.eq_or_lt_of_le hx.1 with heq | hlt
    · exact Or.inr ⟨u, by rw [heq], hpair.2, fun y hy => by have := hu y hy; omega⟩
    · refine Or.inl ⟨h.1, fun y hy => ?_⟩
      rcases List.mem_cons.mp hy with rfl | hy
      · omega
      · have := hu y hy
        omega

theorem mem_chooseFrom {k left start : Nat} {cur c : List Nat} (hcur : cur.length ≤ k) :
    c ∈ chooseFrom k left start cur ↔
      ∃ t, c = cur ++ t ∧ Continues start left t ∧ c.length = k := by
  induction left generalizing start cur with
  | zero =>
    have hnil : ∀ t, Continues start 0 t → t = [] := fun t ht =>
      List.eq_nil_iff_forall_not_mem.mpr (fun x hx => by have := ht.2 x hx; omega)
    unfold chooseFrom
    split
    next hk =>
      refine ⟨fun h => ⟨[], by simpa using h, Continues.nil _ _, ?_⟩, ?_⟩
      · rw [List.mem_singleton.mp h, hk]
      · rintro ⟨t, rfl, ht, -⟩
        simp [hnil t ht]
    next hk =>
      refine ⟨fun h => absurd h List.not_mem_nil, ?_⟩
      rintro ⟨t, rfl, ht, hlen⟩
      rw [hnil t ht, List.append_nil] at hlen
      exact absurd hlen hk
  | succ left ih =>
    unfold chooseFrom
    split
    next hk =>
      refine ⟨fun h => ⟨[], by simpa using h, Continues.nil _ _, ?_⟩, ?_⟩
      · rw [List.mem_singleton.mp h, hk]
      · rintro ⟨t, rfl, -, hlen⟩
        have ht : t = [] := by
          rw [List.length_append] at hlen
          exact List.length_eq_zero_iff.mp (by omega)
        simp [ht]
    next hk =>
      have hpush : (cur ++ [start]).length ≤ k := by
        rw [List.length_append, List.length_singleton]
        omega
      rw [List.mem_append, ih hpush, ih hcur]
      constructor
      · rintro (⟨t, rfl, ht, hlen⟩ | ⟨t, rfl, ht, hlen⟩)
        · exact ⟨start :: t, by simp, ht.cons, by simpa using hlen⟩
        · exact ⟨t, rfl, ht.later, hlen⟩
      · rintro ⟨t, rfl, ht, hlen⟩
        rcases ht.split with ht | ⟨u, rfl, hu⟩
        · exact Or.inr ⟨t, rfl, ht, hlen⟩
        · exact Or.inl ⟨u, by simp, hu, hlen⟩

/-- `choose n k` has exactly the increasing lists of `k` indices below `n`. -/
theorem mem_choose {n k : Nat} {c : List Nat} :
    c ∈ choose n k ↔ c.Pairwise (· < ·) ∧ (∀ x ∈ c, x < n) ∧ c.length = k := by
  rw [choose, mem_chooseFrom (by exact Nat.zero_le k)]
  constructor
  · rintro ⟨t, rfl, ht, hlen⟩
    exact ⟨ht.1, fun x hx => by have := ht.2 x hx; omega, hlen⟩
  · rintro ⟨hpair, hlt, hlen⟩
    exact ⟨c, rfl, ⟨hpair, fun x hx => ⟨Nat.zero_le x, by have := hlt x hx; omega⟩⟩, hlen⟩

/-- The choices stand in the order of a dictionary. -/
theorem chooseFrom_sorted {k left start : Nat} {cur : List Nat} (hcur : cur.length ≤ k) :
    (chooseFrom k left start cur).Pairwise (List.Lex (· < ·)) := by
  induction left generalizing start cur with
  | zero =>
    unfold chooseFrom
    split
    · exact List.pairwise_singleton _ _
    · exact List.Pairwise.nil
  | succ left ih =>
    unfold chooseFrom
    split
    next hk => exact List.pairwise_singleton _ _
    next hk =>
      have hpush : (cur ++ [start]).length ≤ k := by
        rw [List.length_append, List.length_singleton]
        omega
      refine List.pairwise_append.mpr ⟨ih hpush, ih hcur, fun c hc d hd => ?_⟩
      obtain ⟨t, rfl, -, -⟩ := (mem_chooseFrom hpush).mp hc
      obtain ⟨u, rfl, hu, hlen⟩ := (mem_chooseFrom hcur).mp hd
      -- What is chosen without `start` goes on with a later index.
      cases u with
      | nil =>
        rw [List.append_nil] at hlen
        exact absurd hlen hk
      | cons x u =>
        have hx := (hu.2 x List.mem_cons_self).1
        rw [List.append_assoc, List.singleton_append]
        exact List.Lex.append_left (· < ·) (.rel hx) cur

theorem choose_sorted (n k : Nat) : (choose n k).Pairwise (List.Lex (· < ·)) :=
  chooseFrom_sorted (Nat.zero_le k)

/-- The entries at the indices of entries with `P` are the entries with `P`. -/
theorem filterMap_getElem?_range {α : Type} (P : α → Bool) (l : List α) :
    ((List.range l.length).filter (fun j => (l[j]?).any P)).filterMap (fun j => l[j]?) =
      l.filter P := by
  induction l with
  | nil => rfl
  | cons a l ih =>
    have hshift : ∀ js : List Nat,
        ((js.map Nat.succ).filter (fun j => ((a :: l)[j]?).any P)).filterMap
            (fun j => (a :: l)[j]?) =
          (js.filter (fun j => (l[j]?).any P)).filterMap (fun j => l[j]?) := by
      intro js
      induction js with
      | nil => rfl
      | cons j js ih =>
        rw [List.map_cons, List.filter_cons, List.filter_cons, List.getElem?_cons_succ]
        by_cases hj : (l[j]?).any P
        · rw [if_pos hj, if_pos hj, List.filterMap_cons, List.filterMap_cons,
            List.getElem?_cons_succ, ih]
        · rw [if_neg hj, if_neg hj, ih]
    rw [List.length_cons, List.range_succ_eq_map, List.filter_cons, List.getElem?_cons_zero]
    by_cases ha : P a
    · rw [if_pos (by exact ha), List.filterMap_cons, List.getElem?_cons_zero, hshift, ih,
        List.filter_cons_of_pos ha]
    · rw [if_neg (by exact ha), hshift, ih, List.filter_cons_of_neg ha]

/-- The entries with `P` are one of the choices. -/
theorem exists_choose_filter {α : Type} (P : α → Bool) (l : List α) :
    ∃ c ∈ choose l.length (l.filter P).length, c.filterMap (fun j => l[j]?) = l.filter P := by
  have hentries := filterMap_getElem?_range P l
  refine ⟨(List.range l.length).filter (fun j => (l[j]?).any P), mem_choose.mpr ⟨?_, ?_, ?_⟩,
    hentries⟩
  · exact List.pairwise_lt_range.filter _
  · intro x hx
    exact List.mem_range.mp (List.mem_filter.mp hx).1
  · rw [← hentries, List.length_filterMap_eq_countP]
    symm
    apply List.countP_eq_length.mpr
    intro j hj
    have hlt := List.mem_range.mp (List.mem_filter.mp hj).1
    rw [List.getElem?_eq_getElem hlt]
    rfl

example : choose 3 2 = [[0, 1], [0, 2], [1, 2]] := by decide

end Lib
end ZvolRescue
