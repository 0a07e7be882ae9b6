import Mathlib.LinearAlgebra.Vandermonde
import Mathlib.Logic.Equiv.Fin.Basic

/-!
# Gauss-Jordan inversion

`invert a` runs Gauss-Jordan elimination on `[a | 1]`, one column at a time: find a
pivot at or below the diagonal, swap it up, scale its row and clear the column in every
other row.  It returns the right half.  `invert_solves` says that the result times `a`
is the identity, and `invert_isSome` that a matrix without a null vector has a pivot in
every column.  `powers_trivial` says that a matrix of powers of distinct nonzero points,
with exponents in arithmetic progression, has no null vector.
-/

namespace ZvolRescue
namespace Lib
namespace Elimination

variable {F : Type*} {k : Nat}

/-- A square matrix next to the matrix the same row operations are applied to. -/
structure Augmented (F : Type*) (k : Nat) where
  left : Fin k → Fin k → F
  right : Fin k → Fin k → F

/-! ## The row operations and the sweep -/

section Algorithm

variable [Field F]

/-- Exchange two rows. -/
def Augmented.swap (m : Augmented F k) (c p : Fin k) : Augmented F k :=
  { left := fun r => m.left (Equiv.swap c p r), right := fun r => m.right (Equiv.swap c p r) }

/-- Multiply row `c` by `f`. -/
def Augmented.scale (m : Augmented F k) (c : Fin k) (f : F) : Augmented F k :=
  { left := fun r j => if r = c then m.left r j * f else m.left r j
    right := fun r j => if r = c then m.right r j * f else m.right r j }

/-- Subtract `g` times row `c` from row `r`. -/
def Augmented.subtract (m : Augmented F k) (c r : Fin k) (g : F) : Augmented F k :=
  { left := fun i j => if i = r then m.left i j - g * m.left c j else m.left i j
    right := fun i j => if i = r then m.right i j - g * m.right c j else m.right i j }

/-- Move the pivot row up and divide it by the pivot. -/
def Augmented.normalise (m : Augmented F k) (c p : Fin k) : Augmented F k :=
  (m.swap c p).scale c ((m.swap c p).left c c)⁻¹

omit [Field F] in
theorem Augmented.swap_left (m : Augmented F k) (c p r : Fin k) :
    (m.swap c p).left r = m.left (Equiv.swap c p r) := rfl

theorem Augmented.scale_left (m : Augmented F k) (c : Fin k) (f : F) (r j : Fin k) :
    (m.scale c f).left r j = if r = c then m.left r j * f else m.left r j := rfl

variable [DecidableEq F]

/-- Clear column `c` in row `r`, unless `r` is the pivot row or is clear there. -/
def Augmented.clear (m : Augmented F k) (c r : Fin k) : Augmented F k :=
  if r ≠ c ∧ m.left r c ≠ 0 then m.subtract c r (m.left r c) else m

/-- The first row at or below the diagonal with an entry in column `c`. -/
def Augmented.pivot (m : Augmented F k) (c : Fin k) : Option (Fin k) :=
  (List.finRange k).find? (fun r => decide (c ≤ r ∧ m.left r c ≠ 0))

/-- Turn column `c` into a unit column. -/
def Augmented.column (m : Augmented F k) (c : Fin k) : Option (Augmented F k) :=
  (m.pivot c).map (fun p => (List.finRange k).foldl (fun m r => m.clear c r) (m.normalise c p))

/-- The columns of `cs`, in order. -/
def Augmented.sweep (m : Augmented F k) : List (Fin k) → Option (Augmented F k)
  | [] => some m
  | c :: cs => (m.column c).bind (fun m => m.sweep cs)

/-- The inverse of `a`, unless some column has no pivot. -/
def invert (a : Fin k → Fin k → F) : Option (Fin k → Fin k → F) :=
  let m : Augmented F k := { left := a, right := fun i j => if i = j then 1 else 0 }
  (m.sweep (List.finRange k)).map Augmented.right

end Algorithm

/-! ## What a row operation preserves -/

/-- No vector but zero is sent to zero. -/
def Trivial [Semiring F] (a : Fin k → Fin k → F) : Prop :=
  ∀ v : Fin k → F, (∀ r, ∑ j, a r j * v j = 0) → v = 0

/-- The right half records the row operations that took `a` to the left half, and the
left half has no null vector that `a` lacks. -/
structure Derived [Field F] (a : Fin k → Fin k → F) (m : Augmented F k) : Prop where
  product : ∀ r j, ∑ i, m.right r i * a i j = m.left r j
  trivial : Trivial a → Trivial m.left

section Preservation

variable [Field F] {a : Fin k → Fin k → F} {m : Augmented F k}

theorem Derived.start : Derived a { left := a, right := fun i j => if i = j then 1 else 0 } where
  product r j := by simp
  trivial h := h

theorem Derived.swap (h : Derived a m) (c p : Fin k) : Derived a (m.swap c p) where
  product r j := h.product (Equiv.swap c p r) j
  trivial ha v hv := by
    refine h.trivial ha v (fun r => ?_)
    have hr := hv (Equiv.swap c p r)
    rwa [Augmented.swap_left, Equiv.swap_apply_self] at hr

theorem Derived.scale (h : Derived a m) (c : Fin k) {f : F} (hf : f ≠ 0) :
    Derived a (m.scale c f) where
  product r j := by
    by_cases hr : r = c
    · simp only [Augmented.scale, if_pos hr, ← h.product r j, Finset.sum_mul]
      exact Finset.sum_congr rfl (fun i _ => mul_right_comm _ _ _)
    · simp only [Augmented.scale, if_neg hr]
      exact h.product r j
  trivial ha v hv := by
    refine h.trivial ha v (fun r => ?_)
    have hr := hv r
    by_cases hrc : r = c
    · simp only [Augmented.scale, if_pos hrc] at hr
      have hsum : (∑ j, m.left r j * v j) * f = 0 := by
        rw [Finset.sum_mul, ← hr]
        exact Finset.sum_congr rfl (fun j _ => mul_right_comm _ _ _)
      exact (mul_eq_zero.mp hsum).resolve_right hf
    · simpa only [Augmented.scale, if_neg hrc] using hr

theorem Derived.subtract (h : Derived a m) {c r : Fin k} (hrc : r ≠ c) (g : F) :
    Derived a (m.subtract c r g) where
  product i j := by
    by_cases hi : i = r
    · simp only [Augmented.subtract, if_pos hi, ← h.product i j, ← h.product c j, Finset.mul_sum,
        ← Finset.sum_sub_distrib, sub_mul, mul_assoc]
    · simp only [Augmented.subtract, if_neg hi]
      exact h.product i j
  trivial ha v hv := by
    refine h.trivial ha v (fun i => ?_)
    have hi := hv i
    by_cases hir : i = r
    · have hc := hv c
      simp only [Augmented.subtract, if_neg (Ne.symm hrc)] at hc
      simp only [Augmented.subtract, if_pos hir, sub_mul, Finset.sum_sub_distrib, mul_assoc,
        ← Finset.mul_sum, hc, mul_zero, sub_zero] at hi
      exact hi
    · simpa only [Augmented.subtract, if_neg hir] using hi

variable [DecidableEq F]

theorem Derived.clear (h : Derived a m) (c r : Fin k) : Derived a (m.clear c r) := by
  unfold Augmented.clear
  split
  next hr => exact h.subtract hr.1 _
  next => exact h

theorem Derived.clearAll (h : Derived a m) (c : Fin k) (rs : List (Fin k)) :
    Derived a (rs.foldl (fun m r => m.clear c r) m) := by
  induction rs generalizing m with
  | nil => exact h
  | cons r rs ih => exact ih (h.clear c r)

/-! ## Unit columns -/

/-- Column `j` is the unit column with its one in row `j`. -/
def Unit (m : Augmented F k) (j : Fin k) : Prop :=
  ∀ r, m.left r j = if r = j then 1 else 0

/-- Clearing a row does not touch the others. -/
theorem clear_left_of_ne (m : Augmented F k) (c : Fin k) {r i : Fin k} (h : i ≠ r) :
    (m.clear c r).left i = m.left i := by
  unfold Augmented.clear
  split
  · funext j
    exact if_neg h
  · rfl

/-- Once the pivot is one, clearing a row leaves a zero in the pivot column. -/
theorem clear_left_pivot {c r : Fin k} (hc : m.left c c = 1) (hr : r ≠ c) :
    (m.clear c r).left r c = 0 := by
  unfold Augmented.clear
  split
  · simp only [Augmented.subtract, if_true, hc, mul_one, sub_self]
  next h => exact not_not.mp (fun hne => h ⟨hr, hne⟩)

/-- Clearing by a pivot row that is zero in column `j` leaves column `j` alone. -/
theorem clear_left_column {c j : Fin k} (hj : m.left c j = 0) (r i : Fin k) :
    (m.clear c r).left i j = m.left i j := by
  unfold Augmented.clear
  split
  · by_cases hi : i = r
    · simp only [Augmented.subtract, if_pos hi, hj, mul_zero, sub_zero]
    · exact if_neg hi
  · rfl

theorem clear_left_pivotRow (m : Augmented F k) (c r : Fin k) : (m.clear c r).left c = m.left c := by
  by_cases h : c = r
  · unfold Augmented.clear
    rw [if_neg (fun hn => hn.1 h.symm)]
  · exact clear_left_of_ne m c h

theorem clearAll_left_pivotRow (c : Fin k) (rs : List (Fin k)) :
    (rs.foldl (fun m r => m.clear c r) m).left c = m.left c := by
  induction rs generalizing m with
  | nil => rfl
  | cons r rs ih =>
    rw [List.foldl_cons, ih, clear_left_pivotRow]

theorem clearAll_left_column {c j : Fin k} (hj : m.left c j = 0) (rs : List (Fin k)) (i : Fin k) :
    (rs.foldl (fun m r => m.clear c r) m).left i j = m.left i j := by
  induction rs generalizing m with
  | nil => rfl
  | cons r rs ih =>
    rw [List.foldl_cons, ih (by rw [clear_left_pivotRow]; exact hj), clear_left_column hj]

/-- A row once cleared stays clear: later rows are other rows. -/
theorem clearAll_left_pivot {c : Fin k} (hc : m.left c c = 1) (rs : List (Fin k)) {i : Fin k}
    (hi : i ≠ c) (h : i ∈ rs ∨ m.left i c = 0) :
    (rs.foldl (fun m r => m.clear c r) m).left i c = 0 := by
  induction rs generalizing m with
  | nil => exact h.resolve_left List.not_mem_nil
  | cons r rs ih =>
    refine ih (by rw [clear_left_pivotRow]; exact hc) ?_
    by_cases hir : i = r
    · exact Or.inr (hir ▸ clear_left_pivot hc (hir ▸ hi))
    · rw [clear_left_of_ne m c hir]
      exact h.imp_left (fun hmem => (List.mem_cons.mp hmem).resolve_left hir)

theorem pivot_some {c p : Fin k} (h : m.pivot c = some p) : c ≤ p ∧ m.left p c ≠ 0 := by
  simpa using List.find?_some h

/-- Without a pivot, column `c` combines the unit columns before it, so the left half has
a null vector with a one in place `c`. -/
theorem not_trivial_of_pivot_none {c : Fin k} (hunit : ∀ j < c, Unit m j)
    (h : m.pivot c = none) : ¬ Trivial m.left := by
  intro htriv
  have hzero : ∀ r, c ≤ r → m.left r c = 0 := by
    intro r hr
    have hnot := List.find?_eq_none.mp h r (List.mem_finRange r)
    simp only [decide_eq_true_eq, not_and, not_not] at hnot
    exact hnot hr
  let v : Fin k → F := fun j => if j = c then 1 else if j < c then -m.left j c else 0
  have hv : v = 0 := by
    refine htriv v (fun r => ?_)
    have hsplit : ∀ j, m.left r j * v j =
        (if j = c then m.left r c else 0) + (if j = r ∧ r < c then -m.left r c else 0) := by
      intro j
      simp only [v]
      by_cases hjc : j = c
      · have hjr : ¬ (j = r ∧ r < c) := by
          rintro ⟨rfl, hlt⟩
          exact absurd hlt (hjc ▸ lt_irrefl _)
        rw [if_pos hjc, if_pos hjc, if_neg hjr, hjc, mul_one, add_zero]
      · rw [if_neg hjc, if_neg hjc, zero_add]
        by_cases hlt : j < c
        · rw [if_pos hlt, hunit j hlt r]
          by_cases hrj : r = j
          · rw [if_pos hrj, one_mul, if_pos ⟨hrj.symm, hrj ▸ hlt⟩, hrj]
          · rw [if_neg hrj, zero_mul, if_neg (fun hn => hrj hn.1.symm)]
        · rw [if_neg hlt, mul_zero, if_neg]
          rintro ⟨rfl, hn⟩
          exact hlt hn
    rw [Finset.sum_congr rfl (fun j _ => hsplit j), Finset.sum_add_distrib,
      Finset.sum_ite_eq' Finset.univ c, if_pos (Finset.mem_univ c)]
    by_cases hrc : r < c
    · simp [hrc]
    · simp [hrc, hzero r (not_lt.mp hrc)]
  have hone : v c = 1 := if_pos rfl
  rw [hv] at hone
  exact zero_ne_one hone

/-! ## The sweep -/

/-- The state of the sweep before column `c`. -/
structure Swept (a : Fin k → Fin k → F) (m : Augmented F k) (c : Nat) : Prop where
  derived : Derived a m
  unit : ∀ j : Fin k, j.val < c → Unit m j

omit [DecidableEq F] in
theorem normalise_left_pivot {c p : Fin k} (hne : m.left p c ≠ 0) :
    (m.normalise c p).left c c = 1 := by
  rw [Augmented.normalise, Augmented.scale_left, if_pos rfl, Augmented.swap_left,
    Equiv.swap_apply_left, mul_inv_cancel₀ hne]

omit [DecidableEq F] in
/-- Rows `c` and `p` are both at or below the diagonal, so the unit columns before `c` are
zero there and the swap and the scaling leave them alone. -/
theorem normalise_unit {c p j : Fin k} (hcp : c ≤ p) (hj : j < c) (h : Unit m j) :
    Unit (m.normalise c p) j := by
  intro r
  have hjc : c ≠ j := Fin.ne_of_gt hj
  have hjp : p ≠ j := Fin.ne_of_gt (lt_of_lt_of_le hj hcp)
  have hsw : (m.swap c p).left r j = if r = j then 1 else 0 := by
    rw [Augmented.swap_left]
    rcases eq_or_ne r c with rfl | hrc
    · rw [Equiv.swap_apply_left, h, if_neg hjp, if_neg hjc]
    · rcases eq_or_ne r p with rfl | hrp
      · rw [Equiv.swap_apply_right, h, if_neg hjp, if_neg hjc]
      · rw [Equiv.swap_apply_of_ne_of_ne hrc hrp, h]
  rw [Augmented.normalise, Augmented.scale_left]
  by_cases hrc : r = c
  · rw [if_pos hrc, hsw, if_neg (hrc ▸ hjc), zero_mul]
  · rw [if_neg hrc, hsw]

/-- One column: the sweep moves on, with one more unit column. -/
theorem Swept.column {c : Fin k} (h : Swept a m c.val) {m' : Augmented F k}
    (hcol : m.column c = some m') : Swept a m' (c.val + 1) := by
  obtain ⟨p, hp, rfl⟩ := Option.map_eq_some_iff.mp hcol
  obtain ⟨hcp, hne⟩ := pivot_some hp
  have hone := normalise_left_pivot hne
  have hpivot : (m.swap c p).left c c ≠ 0 := by
    rwa [Augmented.swap_left, Equiv.swap_apply_left]
  have hderived : Derived a (m.normalise c p) :=
    (h.derived.swap c p).scale c (inv_ne_zero hpivot)
  refine { derived := hderived.clearAll c _, unit := fun j hj r => ?_ }
  rcases Nat.lt_succ_iff_lt_or_eq.mp hj with hlt | heq
  · have hunit := normalise_unit hcp hlt (h.unit j hlt)
    have hzero : (m.normalise c p).left c j = 0 := by
      rw [hunit c, if_neg (Fin.ne_of_gt hlt)]
    rw [clearAll_left_column hzero, hunit r]
  · obtain rfl : j = c := Fin.ext heq
    by_cases hr : r = j
    · rw [if_pos hr, hr, clearAll_left_pivotRow, hone]
    · rw [if_neg hr]
      exact clearAll_left_pivot hone _ hr (Or.inl (List.mem_finRange r))

/-- The sweep from column `c` on. -/
theorem Swept.sweep {cs : List (Fin k)} {c : Nat} (h : Swept a m c)
    (hcs : cs.map Fin.val = List.range' c (k - c)) {m' : Augmented F k}
    (hsw : m.sweep cs = some m') : Swept a m' k := by
  induction cs generalizing m c with
  | nil =>
    rw [Augmented.sweep, Option.some_inj] at hsw
    have hlen : k - c = 0 := by simpa using (congrArg List.length hcs).symm
    exact hsw ▸ { derived := h.derived, unit := fun j _ => h.unit j (by omega) }
  | cons x cs ih =>
    have hpos : 0 < k - c := by
      have hlen := congrArg List.length hcs
      simp only [List.map_cons, List.length_cons, List.length_map, List.length_range'] at hlen
      omega
    obtain ⟨d, hd⟩ : ∃ d, k - c = d + 1 := ⟨k - c - 1, by omega⟩
    rw [hd, List.range'_succ, List.map_cons, List.cons.injEq] at hcs
    obtain ⟨m₁, hcol, hrest⟩ := Option.bind_eq_some_iff.mp hsw
    have hstep : Swept a m₁ (c + 1) := hcs.1 ▸ (Swept.column (c := x) (hcs.1 ▸ h) hcol)
    exact ih hstep (by rw [hcs.2]; congr 1; omega) hrest

/-- A matrix without a null vector has a pivot in every column. -/
theorem Swept.sweep_isSome (ha : Trivial a) {cs : List (Fin k)} {c : Nat} (h : Swept a m c)
    (hcs : cs.map Fin.val = List.range' c (k - c)) : (m.sweep cs).isSome := by
  induction cs generalizing m c with
  | nil => rfl
  | cons x cs ih =>
    have hlen := congrArg List.length hcs
    simp only [List.map_cons, List.length_cons, List.length_map, List.length_range'] at hlen
    obtain ⟨d, hd⟩ : ∃ d, k - c = d + 1 := ⟨k - c - 1, by omega⟩
    rw [hd, List.range'_succ, List.map_cons, List.cons.injEq] at hcs
    have hx : Swept a m x.val := hcs.1 ▸ h
    cases hp : m.pivot x with
    | none => exact absurd (h.derived.trivial ha) (not_trivial_of_pivot_none hx.unit hp)
    | some p =>
      have hcol : ∃ m₁, m.column x = some m₁ := by
        unfold Augmented.column
        rw [hp]
        exact ⟨_, rfl⟩
      obtain ⟨m₁, hcol⟩ := hcol
      have hstep : Swept a m₁ (c + 1) := hcs.1 ▸ (hx.column hcol)
      rw [Augmented.sweep, hcol, Option.bind_some]
      exact ih hstep (by rw [hcs.2]; congr 1; omega)

theorem finRange_val (k : Nat) : (List.finRange k).map Fin.val = List.range' 0 (k - 0) := by
  rw [Nat.sub_zero, ← List.range_eq_range']
  exact List.map_coe_finRange_eq_range

omit [DecidableEq F] in
theorem Swept.start : Swept a { left := a, right := fun i j => if i = j then 1 else 0 } 0 where
  derived := Derived.start
  unit _ h := absurd h (Nat.not_lt_zero _)

/-- What `invert` returns solves every system with matrix `a`. -/
theorem invert_solves {b : Fin k → Fin k → F} (h : invert a = some b) {x y : Fin k → F}
    (hxy : ∀ r, ∑ j, a r j * x j = y r) (i : Fin k) : ∑ r, b i r * y r = x i := by
  obtain ⟨m, hsw, rfl⟩ := Option.map_eq_some_iff.mp h
  have hswept := Swept.start.sweep (finRange_val k) hsw
  calc ∑ r, m.right i r * y r = ∑ r, ∑ j, m.right i r * a r j * x j := by
        refine Finset.sum_congr rfl (fun r _ => ?_)
        rw [← hxy r, Finset.mul_sum]
        exact Finset.sum_congr rfl (fun j _ => (mul_assoc _ _ _).symm)
    _ = ∑ j, (∑ r, m.right i r * a r j) * x j := by
        rw [Finset.sum_comm]
        exact Finset.sum_congr rfl (fun j _ => (Finset.sum_mul _ _ _).symm)
    _ = ∑ j, (if i = j then 1 else 0) * x j := by
        refine Finset.sum_congr rfl (fun j _ => ?_)
        rw [hswept.derived.product i j, hswept.unit j j.isLt i]
    _ = x i := by simp

theorem invert_isSome (ha : Trivial a) : (invert a).isSome := by
  rw [invert, Option.isSome_map]
  exact Swept.start.sweep_isSome ha (finRange_val k)

end Preservation

/-! ## Rows of powers -/

/-- Rows `x ↦ x ^ (s + d * r)` of nonzero points whose `d`-th powers are distinct. -/
theorem powers_trivial [Field F] {x : Fin k → F} {s d : Nat} (hx : ∀ i, x i ≠ 0)
    (hd : Function.Injective (fun i => x i ^ d)) :
    Trivial (fun r i : Fin k => x i ^ (s + d * r.val)) := by
  intro v hv
  have hw : (fun i => v i * x i ^ s) = 0 := by
    refine Matrix.eq_zero_of_forall_pow_sum_mul_pow_eq_zero hd (fun r => ?_)
    rw [← hv r]
    refine Finset.sum_congr rfl (fun i _ => ?_)
    show v i * x i ^ s * (x i ^ d) ^ r.val = x i ^ (s + d * r.val) * v i
    rw [pow_add, pow_mul, mul_assoc, mul_comm]
  funext i
  exact (mul_eq_zero.mp (congrFun hw i)).resolve_right (pow_ne_zero s (hx i))

end Elimination
end Lib
end ZvolRescue
