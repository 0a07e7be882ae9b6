import Mathlib.Algebra.BigOperators.Fin
import Mathlib.Data.List.GetD
import ZvolRescue.Raidz.Parity

/-!
# The parity round trip

`reconstruct` undoes the loss of data columns whenever as many columns of
`generateParity` survive.  At each position the parity bytes are power sums of the data
bytes (`ofByte_sumsAt`), the syndromes are what the missing columns contribute
(`ofByte_syndrome`), and the inverse of `invertRows` recovers the missing bytes
(`dot_eq`).  The loop over the positions keeps `Rebuilt`: columns that were not missing
are untouched, and the missing ones are right below the current position.
-/

namespace ZvolRescue
namespace Raidz

open Lib GF256

/-! ## Parity bytes as power sums -/

/-- The point of column `i` of `n`. -/
def point (i n : Nat) : GF256 := two ^ (n - 1 - i)

theorem ofByte_coefficient {row i n : Nat} (hrow : row ≤ 2) (hn : n ≤ 255) :
    ofByte (coefficient row i n) = point i n ^ row := by
  have he : n - 1 - i < 2 ^ 32 := by omega
  have hfour : ofByte 4 = two ^ 2 := by
    rw [two_pow 2 (by decide), ofByte_inj]
    decide
  match row, hrow with
  | 0, _ => exact (pow_zero _).symm
  | 1, _ => exact (ofByte_gfPow 2 he).trans (pow_one _).symm
  | 2, _ =>
    show ofByte (gfPow 4 (n - 1 - i)) = _
    rw [ofByte_gfPow 4 he, hfour, point, ← pow_mul, ← pow_mul, mul_comm]

theorem sumsAt_concat (data : List (List UInt8)) (c : List UInt8) (pos : Nat) :
    sumsAt (data ++ [c]) pos = (sumsAt data pos).step data.length (byteAt c pos) := by
  rw [sumsAt, List.zipIdx_append, List.foldl_append]
  simp only [List.zipIdx_cons, List.zipIdx_nil, List.foldl_cons, List.foldl_nil, Nat.zero_add]
  rfl

/-- One column is its own parity. -/
theorem generateParity_singleton (col : List UInt8) {nparity : Nat} (h : nparity ≤ 3) :
    generateParity [col] nparity = List.replicate nparity col := by
  have hrow : ∀ row < nparity, ∀ pos, (sumsAt [col] pos).row row = byteAt col pos := by
    intro row hlt pos
    match row, (show row ≤ 2 by omega) with
    | 0, _ => rfl
    | 1, _ => rfl
    | 2, _ => rfl
  have hcol : (List.range col.length).map (byteAt col) = col := by
    refine List.ext_getElem (by simp) (fun pos hpos hlt => ?_)
    rw [List.getElem_map, List.getElem_range, byteAt, List.getD_eq_getElem _ _ hlt]
  have hlongest : longest [col] = col.length := Nat.zero_max _
  rw [generateParity, hlongest]
  refine (List.map_congr_left (fun row hmem => ?_)).trans
    (by rw [List.map_const', List.length_range])
  exact (List.map_congr_left (fun pos _ => hrow row (List.mem_range.mp hmem) pos)).trans hcol

/-- One Horner step; on the first column the sums are still zero. -/
theorem ofByte_step_row {s : Sums} {i row : Nat} (hrow : row ≤ 2)
    (hzero : i = 0 → s = { p := 0, q := 0, r := 0 }) (d : UInt8) :
    ofByte ((s.step i d).row row) = two ^ row * ofByte (s.row row) + ofByte d := by
  have hfour : ofByte 4 = two ^ 2 := by
    rw [two_pow 2 (by decide), ofByte_inj]
    decide
  by_cases hi : i = 0
  · have hrow0 : s.row row = 0 := by
      rw [hzero hi]
      match row, hrow with
      | 0, _ | 1, _ | 2, _ => rfl
    rw [hrow0, ofByte_zero, mul_zero, zero_add, Sums.step, if_pos hi]
    match row, hrow with
    | 0, _ | 1, _ | 2, _ => rfl
  · rw [Sums.step, if_neg hi]
    match row, hrow with
    | 0, _ =>
      show ofByte (s.p ^^^ d) = _
      rw [ofByte_xor, pow_zero, one_mul]
      rfl
    | 1, _ =>
      show ofByte (gfMul s.q 2 ^^^ d) = _
      rw [ofByte_xor, ofByte_gfMul, pow_one, mul_comm]
      rfl
    | 2, _ =>
      show ofByte (gfMul s.r 4 ^^^ d) = _
      rw [ofByte_xor, ofByte_gfMul, hfour, mul_comm]
      rfl

/-- Row `row` of the sums at a position is the power sum of the bytes there. -/
theorem ofByte_sumsAt {row : Nat} (hrow : row ≤ 2) (data : List (List UInt8)) (pos : Nat) :
    ofByte ((sumsAt data pos).row row) =
      ∑ i ∈ Finset.range data.length,
        point i data.length ^ row * ofByte (byteAt (column data i) pos) := by
  induction data using List.reverseRecOn with
  | nil =>
    match row, hrow with
    | 0, _ | 1, _ | 2, _ => rfl
  | append_singleton data c ih =>
    have hzero : data.length = 0 → sumsAt data pos = { p := 0, q := 0, r := 0 } := by
      intro h
      rw [List.length_eq_zero_iff.mp h]
      rfl
    rw [sumsAt_concat, ofByte_step_row hrow hzero, ih, List.length_append, List.length_singleton,
      Finset.sum_range_succ, Finset.mul_sum]
    congr 1
    · refine Finset.sum_congr rfl (fun i hi => ?_)
      have hlt := Finset.mem_range.mp hi
      have hcol : column (data ++ [c]) i = column data i := by
        simp only [column, List.getD_eq_getElem?_getD, List.getElem?_append_left hlt]
      have hpoint : point i (data.length + 1) = two * point i data.length := by
        rw [point, point, ← pow_succ']
        congr 1
        omega
      rw [hcol, hpoint, mul_pow, mul_assoc]
    · have hcol : column (data ++ [c]) data.length = c := by
        simp [column]
      have hpoint : point data.length (data.length + 1) = 1 := by
        rw [point, Nat.add_sub_cancel, Nat.sub_self, pow_zero]
      rw [hcol, hpoint, one_pow, one_mul]

theorem byteAt_generateParity {data : List (List UInt8)} {nparity row pos : Nat}
    (hrow : row < nparity) (hpos : pos < longest data) :
    byteAt (column (generateParity data nparity) row) pos = (sumsAt data pos).row row := by
  simp [byteAt, column, generateParity, hrow, hpos]

/-! ## Syndromes -/

theorem ofByte_foldl_xor_range (missing : List Nat) (f : Nat → UInt8) (n : Nat) (x : UInt8) :
    ofByte ((List.range n).foldl (fun s i => if i ∈ missing then s else s ^^^ f i) x) =
      ofByte x + ∑ i ∈ Finset.range n, if i ∈ missing then 0 else ofByte (f i) := by
  induction n with
  | zero => simp
  | succ n ih =>
    rw [List.range_succ, List.foldl_append, List.foldl_cons, List.foldl_nil,
      Finset.sum_range_succ, ← add_assoc, ← ih]
    by_cases h : n ∈ missing
    · rw [if_pos h, if_pos h, add_zero]
    · rw [if_neg h, if_neg h, ofByte_xor]

/-- The sum over the missing columns, taken in the order of the list. -/
theorem sum_missing {missing : List Nat} {n : Nat} (hnodup : missing.Nodup)
    (hlt : ∀ i ∈ missing, i < n) (g : Nat → GF256) :
    (∑ i ∈ Finset.range n, if i ∈ missing then g i else 0) =
      ∑ m : Fin missing.length, g (missing.get m) := by
  have hset : (Finset.range n).filter (· ∈ missing) = missing.toFinset := by
    ext i
    simp only [Finset.mem_filter, Finset.mem_range, List.mem_toFinset]
    exact ⟨fun h => h.2, fun h => ⟨hlt i h, h⟩⟩
  rw [← Finset.sum_filter, hset, List.sum_toFinset g hnodup]
  exact (Fin.sum_univ_fun_getElem missing g).symm

/-- With the columns that are not missing as they were, the syndrome of a parity row is
the power sum of the missing bytes alone. -/
theorem ofByte_syndrome {orig data : List (List UInt8)} {missing : List Nat} {r pos : Nat}
    {parity : List UInt8} (hr : r ≤ 2) (hn : orig.length ≤ 255)
    (hlen : data.length = orig.length)
    (hkept : ∀ i, i ∉ missing → column data i = column orig i)
    (hnodup : missing.Nodup) (hlt : ∀ i ∈ missing, i < orig.length)
    (hparity : byteAt parity pos = (sumsAt orig pos).row r) :
    ofByte (syndrome data missing r parity pos) =
      ∑ m : Fin missing.length, point (missing.get m) orig.length ^ r *
        ofByte (byteAt (column orig (missing.get m)) pos) := by
  let g : Nat → GF256 := fun i =>
    point i orig.length ^ r * ofByte (byteAt (column orig i) pos)
  have hsum : ∑ i ∈ Finset.range orig.length, g i =
      (∑ i ∈ Finset.range orig.length, if i ∈ missing then g i else 0) +
        ∑ i ∈ Finset.range orig.length, if i ∈ missing then 0 else g i := by
    rw [← Finset.sum_add_distrib]
    refine Finset.sum_congr rfl (fun i _ => ?_)
    by_cases h : i ∈ missing
    · rw [if_pos h, if_pos h, add_zero]
    · rw [if_neg h, if_neg h, zero_add]
  have hkept' : (∑ i ∈ Finset.range orig.length, if i ∈ missing then 0
        else ofByte (gfMul (coefficient r i orig.length) (byteAt (column data i) pos))) =
      ∑ i ∈ Finset.range orig.length, if i ∈ missing then 0 else g i := by
    refine Finset.sum_congr rfl (fun i _ => ?_)
    by_cases h : i ∈ missing
    · rw [if_pos h, if_pos h]
    · rw [if_neg h, if_neg h, hkept i h, ofByte_gfMul, ofByte_coefficient hr hn]
  rw [syndrome, ofByte_foldl_xor_range, hlen, hkept', hparity, ofByte_sumsAt hr orig pos]
  show (∑ i ∈ Finset.range orig.length, g i) + _ = ∑ m, g (missing.get m)
  rw [hsum, add_assoc, add_self, add_zero, sum_missing hnodup hlt g]

/-! ## The inverse -/

theorem ofByte_foldl_xor (l : List UInt8) (x : UInt8) :
    ofByte (l.foldl (· ^^^ ·) x) = ofByte x + (l.map ofByte).sum := by
  induction l generalizing x with
  | nil => simp
  | cons a l ih =>
    rw [List.foldl_cons, ih, ofByte_xor, List.map_cons, List.sum_cons, add_assoc]

theorem ofByte_dot {k : Nat} (f g : Fin k → UInt8) :
    ofByte (dot (List.ofFn f) (List.ofFn g)) = ∑ j, ofByte (f j) * ofByte (g j) := by
  have hzip : List.zipWith gfMul (List.ofFn f) (List.ofFn g) =
      List.ofFn (fun j => gfMul (f j) (g j)) := by
    apply List.ext_getElem
    · simp
    · intro i h₁ h₂
      simp
  rw [dot, ofByte_foldl_xor, ofByte_zero, zero_add, hzip, List.map_ofFn, List.sum_ofFn]
  rfl

/-- Points of distinct columns are distinct, and so are their squares. -/
theorem point_pow_injective {missing : List Nat} {n d : Nat} (hn : n ≤ 255)
    (hnodup : missing.Nodup) (hlt : ∀ i ∈ missing, i < n) (hd : d = 1 ∨ d = 2) :
    Function.Injective (fun m : Fin missing.length => point (missing.get m) n ^ d) := by
  have hinj : Function.Injective (fun m : Fin missing.length => point (missing.get m) n) := by
    intro x y hxy
    have hx := hlt _ (List.get_mem missing x)
    have hy := hlt _ (List.get_mem missing y)
    have he : n - 1 - missing.get x = n - 1 - missing.get y :=
      two_pow_injOn (Set.mem_Iio.mpr (by omega)) (Set.mem_Iio.mpr (by omega)) hxy
    exact List.nodup_iff_injective_get.mp hnodup (by omega)
  intro x y hxy
  rcases hd with rfl | rfl
  · exact hinj (by simpa using hxy)
  · apply hinj
    rcases sq_eq_sq_iff_eq_or_eq_neg.mp hxy with h | h
    · exact h
    · exact h

/-- Increasing rows among P, Q and R are in arithmetic progression. -/
theorem rows_progression {k : Nat} (f : Fin k → Nat) (hmono : StrictMono f) (hle : ∀ j, f j ≤ 2) :
    ∃ s d, (d = 1 ∨ d = 2) ∧ ∀ j, f j = s + d * j.val := by
  have hk : k ≤ 3 := by
    by_contra hk
    have h0 := hmono (show (⟨0, by omega⟩ : Fin k) < ⟨1, by omega⟩ by simp)
    have h1 := hmono (show (⟨1, by omega⟩ : Fin k) < ⟨2, by omega⟩ by simp)
    have h2 := hmono (show (⟨2, by omega⟩ : Fin k) < ⟨3, by omega⟩ by simp)
    have h3 := hle ⟨3, by omega⟩
    omega
  match k, hk with
  | 0, _ => exact ⟨0, 1, Or.inl rfl, fun j => j.elim0⟩
  | 1, _ =>
    refine ⟨f 0, 1, Or.inl rfl, fun j => ?_⟩
    rw [Subsingleton.elim j 0]
    simp
  | 2, _ =>
    have h0 : f 0 < f 1 := hmono (by decide)
    have h1 := hle 1
    refine ⟨f 0, f 1 - f 0, by omega, fun j => ?_⟩
    match j with
    | 0 => simp
    | 1 => show f 1 = f 0 + (f 1 - f 0) * 1; omega
  | 3, _ =>
    have h0 : f 0 < f 1 := hmono (by decide)
    have h1 : f 1 < f 2 := hmono (by decide)
    have h2 := hle 2
    refine ⟨f 0, 1, Or.inl rfl, fun j => ?_⟩
    match j with
    | 0 => simp
    | 1 => show f 1 = f 0 + 1 * 1; omega
    | 2 => show f 2 = f 0 + 1 * 2; omega

/-- The surviving rows are increasing. -/
theorem survivingRows_pairwise (parity : List (Option (List UInt8))) :
    (survivingRows parity).Pairwise (· < ·) :=
  List.pairwise_lt_range.filter _

theorem mem_survivingRows {parity : List (Option (List UInt8))} {r : Nat} :
    r ∈ survivingRows parity ↔ (parity.getD r none).isSome := by
  rw [survivingRows, List.mem_filter, List.mem_range]
  constructor
  · intro h
    exact h.2
  · intro h
    refine ⟨?_, h⟩
    by_contra hr
    rw [List.getD_eq_default _ _ (by omega)] at h
    exact absurd h (by simp)

/-- When every selection of rows has no null vector, the first one is taken. -/
theorem invertRows_eq_some {a : List (List UInt8)} {k : Nat} (hk : k ≤ a.length)
    (htriv : ∀ sel ∈ choose a.length k, Elimination.Trivial (selected a sel k)) :
    ∃ sel inv, sel ∈ choose a.length k ∧ Elimination.invert (selected a sel k) = some inv ∧
      invertRows a k = some (sel, matrixBytes inv) := by
  have hmem : List.range k ∈ choose a.length k := mem_choose.mpr
    ⟨List.pairwise_lt_range, fun x hx => by have := List.mem_range.mp hx; omega,
      List.length_range⟩
  unfold invertRows
  cases hc : choose a.length k with
  | nil =>
    rw [hc] at hmem
    exact absurd hmem List.not_mem_nil
  | cons sel rest =>
    have hsel : sel ∈ choose a.length k := by
      rw [hc]
      exact List.mem_cons_self
    obtain ⟨inv, hinv⟩ := Option.isSome_iff_exists.mp (Elimination.invert_isSome (htriv sel hsel))
    refine ⟨sel, inv, List.mem_cons_self, hinv, ?_⟩
    rw [List.findSome?_cons, hinv]
    rfl

/-- The row of the `j`-th selected index. -/
def selectedRow (rows sel : List Nat) (j : Nat) : Nat := rows.getD (sel.getD j 0) 0

theorem selectedRow_mem {rows sel : List Nat} {k : Nat} (hsel : sel ∈ choose rows.length k)
    (j : Fin k) : selectedRow rows sel j ∈ rows := by
  obtain ⟨-, hlt, hlen⟩ := mem_choose.mp hsel
  have hj : j.val < sel.length := by rw [hlen]; exact j.isLt
  have hr : sel.getD j 0 < rows.length := by
    rw [List.getD_eq_getElem _ _ hj]
    exact hlt _ (List.getElem_mem hj)
  rw [selectedRow, List.getD_eq_getElem _ _ hr]
  exact List.getElem_mem hr

theorem selectedRow_strictMono {rows sel : List Nat} {k : Nat} (hrows : rows.Pairwise (· < ·))
    (hsel : sel ∈ choose rows.length k) :
    StrictMono (fun j : Fin k => selectedRow rows sel j) := by
  obtain ⟨hpair, hlt, hlen⟩ := mem_choose.mp hsel
  intro i j hij
  have hi : i.val < sel.length := by rw [hlen]; exact i.isLt
  have hj : j.val < sel.length := by rw [hlen]; exact j.isLt
  have hsij : sel[i.val] < sel[j.val] := List.pairwise_iff_getElem.mp hpair _ _ hi hj hij
  have hri := hlt _ (List.getElem_mem hi)
  have hrj := hlt _ (List.getElem_mem hj)
  show rows.getD (sel.getD i 0) 0 < rows.getD (sel.getD j 0) 0
  rw [List.getD_eq_getElem _ _ hi, List.getD_eq_getElem _ _ hj, List.getD_eq_getElem _ _ hri,
    List.getD_eq_getElem _ _ hrj]
  exact List.pairwise_iff_getElem.mp hrows _ _ hri hrj hsij

/-- The coefficient matrix of `reconstruct`. -/
theorem selected_coefficient {rows sel missing : List Nat} {n : Nat}
    (hrows : ∀ r ∈ rows, r ≤ 2) (hn : n ≤ 255)
    (hsel : sel ∈ choose rows.length missing.length) (i j : Fin missing.length) :
    selected (rows.map (fun r => missing.map (fun c => coefficient r c n))) sel missing.length i j =
      point (missing.get j) n ^ selectedRow rows sel i := by
  have hmem := selectedRow_mem hsel i
  obtain ⟨-, hlt, hlen⟩ := mem_choose.mp hsel
  have hi : i.val < sel.length := by rw [hlen]; exact i.isLt
  have hr : sel.getD i 0 < rows.length := by
    rw [List.getD_eq_getElem _ _ hi]
    exact hlt _ (List.getElem_mem hi)
  have hrow : (rows.map (fun r => missing.map (fun c => coefficient r c n))).getD (sel.getD i 0) [] =
      missing.map (fun c => coefficient (selectedRow rows sel i) c n) := by
    rw [List.getD_eq_getElem _ _ (by rw [List.length_map]; exact hr), List.getElem_map,
      selectedRow, List.getD_eq_getElem _ _ hr]
  rw [selected, hrow, List.getD_eq_getElem _ _ (by rw [List.length_map]; exact j.isLt),
    List.getElem_map]
  exact ofByte_coefficient (hrows _ hmem) hn

theorem selected_trivial {rows sel missing : List Nat} {n : Nat}
    (hpair : rows.Pairwise (· < ·)) (hrows : ∀ r ∈ rows, r ≤ 2) (hn : n ≤ 255)
    (hnodup : missing.Nodup) (hlt : ∀ i ∈ missing, i < n)
    (hsel : sel ∈ choose rows.length missing.length) :
    Elimination.Trivial
      (selected (rows.map (fun r => missing.map (fun c => coefficient r c n))) sel
        missing.length) := by
  obtain ⟨s, d, hd, hprog⟩ := rows_progression _ (selectedRow_strictMono hpair hsel)
    (fun j => hrows _ (selectedRow_mem hsel j))
  have heq : selected (rows.map (fun r => missing.map (fun c => coefficient r c n))) sel
      missing.length = fun r i : Fin missing.length => point (missing.get i) n ^ (s + d * r.val) := by
    funext r i
    rw [selected_coefficient hrows hn hsel, hprog r]
  rw [heq]
  exact Elimination.powers_trivial (fun i => two_pow_ne_zero _)
    (point_pow_injective hn hnodup hlt hd)

/-! ## Writing the bytes back -/

theorem column_setByte (data : List (List UInt8)) (col pos : Nat) (v : UInt8) (i : Nat) :
    column (setByte data col pos v) i =
      if i = col then (column data col).set pos v else column data i := by
  unfold setByte
  by_cases hpos : pos ≥ (column data col).length
  · rw [if_pos hpos]
    by_cases hi : i = col
    · rw [if_pos hi, hi, List.set_eq_of_length_le hpos]
    · rw [if_neg hi]
  · rw [if_neg hpos]
    have hcol : col < data.length := by
      by_contra h
      have hnil : column data col = [] := List.getD_eq_default _ _ (by omega)
      rw [hnil] at hpos
      exact hpos (Nat.zero_le _)
    by_cases hi : i = col
    · rw [if_pos hi, hi, column, List.getD_eq_getElem _ _ (by simpa using hcol),
        List.getElem_set_self]
    · rw [if_neg hi, column, List.getD_eq_getElem?_getD, List.getElem?_set_ne (Ne.symm hi), column,
        List.getD_eq_getElem?_getD]

theorem setByte_length (data : List (List UInt8)) (col pos : Nat) (v : UInt8) :
    (setByte data col pos v).length = data.length := by
  unfold setByte
  split
  · rfl
  · exact List.length_set

/-- The bytes `f s`, `f (s + 1)`, … written at `pos` in the columns of `cols`. -/
def setBytes (f : Nat → UInt8) (pos : Nat) (data : List (List UInt8)) (cols : List (Nat × Nat)) :
    List (List UInt8) :=
  cols.foldl (fun d cm => setByte d cm.1 pos (f cm.2)) data

theorem setBytes_length (f : Nat → UInt8) (pos : Nat) (data : List (List UInt8))
    (cols : List (Nat × Nat)) : (setBytes f pos data cols).length = data.length := by
  induction cols generalizing data with
  | nil => rfl
  | cons c cols ih => exact (ih _).trans (setByte_length _ _ _ _)

theorem column_setBytes_other {f : Nat → UInt8} {pos i : Nat} {missing : List Nat}
    (hi : i ∉ missing) (s : Nat) (data : List (List UInt8)) :
    column (setBytes f pos data (missing.zipIdx s)) i = column data i := by
  induction missing generalizing data s with
  | nil => rfl
  | cons c missing ih =>
    rw [List.mem_cons, not_or] at hi
    rw [List.zipIdx_cons]
    show column (setBytes f pos (setByte data c pos (f s)) (missing.zipIdx (s + 1))) i = _
    rw [ih hi.2, column_setByte, if_neg hi.1]

theorem column_setBytes {f : Nat → UInt8} {pos : Nat} {missing : List Nat}
    (hnodup : missing.Nodup) (s : Nat) (data : List (List UInt8)) (m : Fin missing.length) :
    column (setBytes f pos data (missing.zipIdx s)) (missing.get m) =
      (column data (missing.get m)).set pos (f (s + m.val)) := by
  induction missing generalizing data s with
  | nil => exact m.elim0
  | cons c missing ih =>
    obtain ⟨hc, hnodup⟩ := List.nodup_cons.mp hnodup
    rw [List.zipIdx_cons]
    show column (setBytes f pos (setByte data c pos (f s)) (missing.zipIdx (s + 1))) _ = _
    cases m using Fin.cases with
    | zero =>
      show column (setBytes f pos (setByte data c pos (f s)) (missing.zipIdx (s + 1))) c = _
      rw [column_setBytes_other hc, column_setByte, if_pos rfl]
      rfl
    | succ m =>
      show column (setBytes f pos (setByte data c pos (f s)) (missing.zipIdx (s + 1)))
        (missing.get m) = (column data (missing.get m)).set pos (f (s + (m.val + 1)))
      have hne : missing.get m ≠ c := fun h => hc (h ▸ List.get_mem missing m)
      rw [ih hnodup, column_setByte, if_neg hne, Nat.add_assoc, Nat.add_comm 1]

theorem setBytes_column_length (f : Nat → UInt8) (pos : Nat) (data : List (List UInt8))
    (cols : List (Nat × Nat)) (i : Nat) :
    (column (setBytes f pos data cols) i).length = (column data i).length := by
  induction cols generalizing data with
  | nil => rfl
  | cons c cols ih =>
    show (column (setBytes f pos (setByte data c.1 pos (f c.2)) cols) i).length = _
    rw [ih, column_setByte]
    by_cases hi : i = c.1
    · rw [if_pos hi, List.length_set, hi]
    · rw [if_neg hi]

/-! ## The loop over the positions -/

/-- `data` once the positions below `p` are done: the columns have their lengths, those not
missing are untouched, and the missing ones are right below `p`. -/
structure Rebuilt (orig : List (List UInt8)) (missing : List Nat) (p : Nat)
    (data : List (List UInt8)) : Prop where
  lengths : data.map List.length = orig.map List.length
  kept : ∀ i, i ∉ missing → column data i = column orig i
  right : ∀ i ∈ missing, ∀ pos < p, byteAt (column data i) pos = byteAt (column orig i) pos

theorem map_length_getD (data : List (List UInt8)) (i : Nat) :
    (data.map List.length).getD i 0 = (column data i).length := by
  rw [column, List.getD_eq_getElem?_getD, List.getD_eq_getElem?_getD, List.getElem?_map]
  cases data[i]? with
  | none => rfl
  | some c => rfl

theorem Rebuilt.column_length {orig data : List (List UInt8)} {missing : List Nat} {p : Nat}
    (h : Rebuilt orig missing p data) (i : Nat) :
    (column data i).length = (column orig i).length := by
  rw [← map_length_getD, ← map_length_getD, h.lengths]

theorem lengths_eq {data orig : List (List UInt8)} (hlen : data.length = orig.length)
    (hcol : ∀ i, (column data i).length = (column orig i).length) :
    data.map List.length = orig.map List.length := by
  apply List.ext_getElem
  · rw [List.length_map, List.length_map, hlen]
  · intro i h₁ h₂
    have h := hcol i
    rw [← map_length_getD, ← map_length_getD, List.getD_eq_getElem _ _ h₁,
      List.getD_eq_getElem _ _ h₂] at h
    exact h

theorem byteAt_set (col : List UInt8) (pos i : Nat) (v : UInt8) :
    byteAt (col.set pos v) i = if i = pos ∧ pos < col.length then v else byteAt col i := by
  rw [byteAt, List.getD_eq_getElem?_getD, List.getElem?_set, byteAt, List.getD_eq_getElem?_getD]
  by_cases hi : pos = i
  · subst hi
    by_cases hlt : pos < col.length
    · rw [if_pos rfl, if_pos hlt, if_pos ⟨rfl, hlt⟩]
      rfl
    · rw [if_pos rfl, if_neg hlt, if_neg (fun h => hlt h.2), List.getElem?_eq_none (by omega)]
  · rw [if_neg hi, if_neg (fun h => hi h.1.symm)]

/-- Columns that agree byte for byte and in their lengths are equal. -/
theorem eq_of_byteAt {data orig : List (List UInt8)}
    (hlen : data.map List.length = orig.map List.length)
    (hbyte : ∀ i pos, pos < (column orig i).length →
      byteAt (column data i) pos = byteAt (column orig i) pos) : data = orig := by
  have hcount : data.length = orig.length := by
    have h := congrArg List.length hlen
    rwa [List.length_map, List.length_map] at h
  apply List.ext_getElem hcount
  intro i h₁ h₂
  have hd : column data i = data[i] := List.getD_eq_getElem _ _ h₁
  have ho : column orig i = orig[i] := List.getD_eq_getElem _ _ h₂
  have hc : (column data i).length = (column orig i).length := by
    rw [← map_length_getD, ← map_length_getD, hlen]
  rw [← hd, ← ho]
  apply List.ext_getElem hc
  intro pos h₃ h₄
  have h := hbyte i pos h₄
  rwa [byteAt, byteAt, List.getD_eq_getElem _ _ h₃, List.getD_eq_getElem _ _ h₄] at h

theorem foldl_max_le {l : List Nat} {x m : Nat} (h : m ≤ x ∨ ∃ y ∈ l, m ≤ y) :
    m ≤ l.foldl max x := by
  induction l generalizing x with
  | nil => exact h.resolve_right (fun hn => by obtain ⟨y, hy, -⟩ := hn; simp at hy)
  | cons a l ih =>
    apply ih
    rcases h with h | ⟨y, hy, hm⟩
    · exact Or.inl (le_max_of_le_left h)
    · rcases List.mem_cons.mp hy with rfl | hy
      · exact Or.inl (le_max_of_le_right hm)
      · exact Or.inr ⟨y, hy, hm⟩

theorem column_length_le_longest (data : List (List UInt8)) (i : Nat) :
    (column data i).length ≤ longest data := by
  apply foldl_max_le
  by_cases hi : i < data.length
  · refine Or.inr ⟨(column data i).length, List.mem_map.mpr ⟨column data i, ?_, rfl⟩, Nat.le_refl _⟩
    rw [column, List.getD_eq_getElem _ _ hi]
    exact List.getElem_mem hi
  · refine Or.inl ?_
    rw [column, List.getD_eq_default _ _ (by omega)]
    exact Nat.le_refl 0

/-- The parity columns that are there are rows P, Q and R of `orig`. -/
structure ParityOf (orig : List (List UInt8)) (parity : List (Option (List UInt8))) : Prop where
  row : ∀ r col, parity.getD r none = some col → r ≤ 2
  byte : ∀ r col pos, parity.getD r none = some col → pos < longest orig →
    byteAt col pos = (sumsAt orig pos).row r

section Loop

variable {orig data : List (List UInt8)} {parity : List (Option (List UInt8))}
  {missing sel : List Nat} {p : Nat}

theorem ParityOf.row_le (h : ParityOf orig parity) {r : Nat} (hr : r ∈ survivingRows parity) :
    r ≤ 2 := by
  obtain ⟨col, hcol⟩ := Option.isSome_iff_exists.mp (mem_survivingRows.mp hr)
  exact h.row r col hcol

/-- The coefficients of the missing columns in the surviving rows. -/
def system (parity : List (Option (List UInt8))) (missing : List Nat) (n : Nat) :
    List (List UInt8) :=
  (survivingRows parity).map (fun r => missing.map (fun c => coefficient r c n))

/-- The inverse applied to the syndromes gives the missing bytes. -/
theorem dot_eq (hparity : ParityOf orig parity) (hn : orig.length ≤ 255) (hnodup : missing.Nodup)
    (hlt : ∀ i ∈ missing, i < orig.length) (hdata : Rebuilt orig missing p data)
    (hsel : sel ∈ choose (survivingRows parity).length missing.length)
    {inv : Fin missing.length → Fin missing.length → GF256}
    (hinv : Elimination.invert (selected (system parity missing orig.length) sel missing.length) =
      some inv)
    {pos : Nat} (hpos : pos < longest orig) (m : Fin missing.length) :
    dot ((matrixBytes inv).getD m [])
        (sel.map (fun ri =>
          let r := (survivingRows parity).getD ri 0
          syndrome data missing r ((parity.getD r none).getD []) pos)) =
      byteAt (column orig (missing.get m)) pos := by
  let rows := survivingRows parity
  let syn : Fin missing.length → UInt8 := fun j =>
    let r := selectedRow rows sel j
    syndrome data missing r ((parity.getD r none).getD []) pos
  have hlength : data.length = orig.length := by
    have h := congrArg List.length hdata.lengths
    rwa [List.length_map, List.length_map] at h
  have hsyn : sel.map (fun ri =>
      let r := rows.getD ri 0
      syndrome data missing r ((parity.getD r none).getD []) pos) = List.ofFn syn := by
    obtain ⟨-, -, hlen⟩ := mem_choose.mp hsel
    apply List.ext_getElem
    · rw [List.length_map, List.length_ofFn, hlen]
    · intro j h₁ h₂
      rw [List.length_map] at h₁
      rw [List.getElem_map, List.getElem_ofFn]
      show _ = syndrome data missing (rows.getD (sel.getD j 0) 0)
        ((parity.getD (rows.getD (sel.getD j 0) 0) none).getD []) pos
      rw [List.getD_eq_getElem _ _ h₁]
  have hrow : (matrixBytes inv).getD m [] = List.ofFn (fun j => (inv m j).byte) := by
    rw [List.getD_eq_getElem _ _ (by rw [matrixBytes, List.length_ofFn]; exact m.isLt)]
    simp only [matrixBytes, List.getElem_ofFn]
  have hsolve : ∀ r, ∑ j, selected (system parity missing orig.length) sel missing.length r j *
      ofByte (byteAt (column orig (missing.get j)) pos) = ofByte (syn r) := by
    intro r
    have hmem : selectedRow rows sel r ∈ rows := selectedRow_mem hsel r
    have hle := hparity.row_le hmem
    obtain ⟨col, hcol⟩ := Option.isSome_iff_exists.mp (mem_survivingRows.mp hmem)
    have hbyte : byteAt ((parity.getD (selectedRow rows sel r) none).getD []) pos =
        (sumsAt orig pos).row (selectedRow rows sel r) := by
      rw [hcol]
      exact hparity.byte _ _ _ hcol hpos
    rw [show ofByte (syn r) = _ from
      ofByte_syndrome hle hn hlength hdata.kept hnodup hlt hbyte]
    refine Finset.sum_congr rfl (fun j _ => ?_)
    rw [system, selected_coefficient (fun r hr => hparity.row_le hr) hn hsel]
  rw [← ofByte_inj]
  show ofByte (dot _ (sel.map (fun ri =>
      let r := rows.getD ri 0
      syndrome data missing r ((parity.getD r none).getD []) pos))) = _
  rw [hsyn, hrow, ofByte_dot, ← Elimination.invert_solves hinv hsolve m]
  rfl

/-- One position: the missing bytes there come right, and nothing else changes. -/
theorem Rebuilt.step (hparity : ParityOf orig parity) (hn : orig.length ≤ 255)
    (hnodup : missing.Nodup) (hlt : ∀ i ∈ missing, i < orig.length)
    (hdata : Rebuilt orig missing p data)
    (hsel : sel ∈ choose (survivingRows parity).length missing.length)
    {inv : Fin missing.length → Fin missing.length → GF256}
    (hinv : Elimination.invert (selected (system parity missing orig.length) sel missing.length) =
      some inv)
    (hp : p < longest orig) :
    Rebuilt orig missing (p + 1)
      (rebuildAt parity (survivingRows parity) sel (matrixBytes inv) missing data p) := by
  let f : Nat → UInt8 := fun m => dot ((matrixBytes inv).getD m [])
    (sel.map (fun ri =>
      let r := (survivingRows parity).getD ri 0
      syndrome data missing r ((parity.getD r none).getD []) p))
  show Rebuilt orig missing (p + 1) (setBytes f p data missing.zipIdx)
  have hmissing : ∀ m : Fin missing.length,
      column (setBytes f p data missing.zipIdx) (missing.get m) =
        (column data (missing.get m)).set p (byteAt (column orig (missing.get m)) p) := by
    intro m
    rw [column_setBytes hnodup, Nat.zero_add]
    exact congrArg _ (dot_eq hparity hn hnodup hlt hdata hsel hinv hp m)
  have hother : ∀ i, i ∉ missing → column (setBytes f p data missing.zipIdx) i = column data i :=
    fun i hi => column_setBytes_other hi 0 data
  have hlength : data.length = orig.length := by
    have h := congrArg List.length hdata.lengths
    rwa [List.length_map, List.length_map] at h
  refine { lengths := ?_, kept := ?_, right := ?_ }
  · apply lengths_eq ((setBytes_length _ _ _ _).trans hlength)
    intro i
    by_cases hi : i ∈ missing
    · obtain ⟨m, rfl⟩ := List.get_of_mem hi
      rw [hmissing, List.length_set, hdata.column_length]
    · rw [hother i hi, hdata.column_length]
  · intro i hi
    rw [hother i hi, hdata.kept i hi]
  · intro i hi pos hpos
    obtain ⟨m, rfl⟩ := List.get_of_mem hi
    rw [hmissing, byteAt_set]
    by_cases heq : pos = p ∧ p < (column data (missing.get m)).length
    · rw [if_pos heq, heq.1]
    · rw [if_neg heq]
      by_cases hlast : pos = p
      · have hshort : (column data (missing.get m)).length ≤ p := by
          by_contra h
          exact heq ⟨hlast, by omega⟩
        have hshort' := hshort
        rw [hdata.column_length] at hshort'
        rw [byteAt, byteAt, List.getD_eq_default _ _ (by omega), List.getD_eq_default _ _ (by omega)]
      · exact hdata.right _ hi pos (by omega)

/-- The positions below `n`. -/
theorem Rebuilt.run (hparity : ParityOf orig parity) (hn : orig.length ≤ 255)
    (hnodup : missing.Nodup) (hlt : ∀ i ∈ missing, i < orig.length)
    (hdata : Rebuilt orig missing 0 data)
    (hsel : sel ∈ choose (survivingRows parity).length missing.length)
    {inv : Fin missing.length → Fin missing.length → GF256}
    (hinv : Elimination.invert (selected (system parity missing orig.length) sel missing.length) =
      some inv)
    {n : Nat} (hle : n ≤ longest orig) :
    Rebuilt orig missing n
      ((List.range n).foldl
        (rebuildAt parity (survivingRows parity) sel (matrixBytes inv) missing) data) := by
  induction n with
  | zero => exact hdata
  | succ n ih =>
    rw [List.range_succ, List.foldl_append]
    exact (ih (by omega)).step hparity hn hnodup hlt hsel hinv (by omega)

/-- With enough parity the solver finds its rows, whatever the bytes are, and touches no
column that is not missing. -/
theorem reconstruct_keeps (hrows : ∀ r ∈ survivingRows parity, r ≤ 2) (hn : data.length ≤ 255)
    (hnodup : missing.Nodup) (hlt : ∀ i ∈ missing, i < data.length)
    (henough : missing.length ≤ (survivingRows parity).length) :
    ∃ out, reconstruct data parity missing = .ok out ∧
      out.map List.length = data.map List.length ∧
      ∀ i, i ∉ missing → column out i = column data i := by
  unfold reconstruct
  by_cases hk : missing.length = 0
  · rw [if_pos hk]
    exact ⟨data, rfl, rfl, fun _ _ => rfl⟩
  · rw [if_neg hk, if_neg (by omega)]
    obtain ⟨sel, inv, -, -, hrows⟩ :=
      invertRows_eq_some (a := system parity missing data.length)
        (by rw [system, List.length_map]; exact henough)
        (fun sel hsel => selected_trivial (survivingRows_pairwise parity) hrows hn hnodup hlt
          (by rwa [system, List.length_map] at hsel))
    rw [system] at hrows
    dsimp only
    rw [hrows]
    have hrun : ∀ (l : List Nat) (d : List (List UInt8)),
        d.map List.length = data.map List.length ∧
          (∀ i, i ∉ missing → column d i = column data i) →
        (l.foldl (rebuildAt parity (survivingRows parity) sel (matrixBytes inv) missing) d).map
            List.length = data.map List.length ∧
          ∀ i, i ∉ missing → column (l.foldl
            (rebuildAt parity (survivingRows parity) sel (matrixBytes inv) missing) d) i =
              column data i := by
      intro l
      induction l with
      | nil =>
        intro d hd
        exact hd
      | cons pos l ih =>
        intro d hd
        apply ih
        let f : Nat → UInt8 := fun m => dot ((matrixBytes inv).getD m [])
          (sel.map (fun ri =>
            let r := (survivingRows parity).getD ri 0
            syndrome d missing r ((parity.getD r none).getD []) pos))
        show (setBytes f pos d missing.zipIdx).map List.length = _ ∧
          ∀ i, i ∉ missing → column (setBytes f pos d missing.zipIdx) i = _
        constructor
        · rw [← hd.1]
          exact lengths_eq (setBytes_length f pos d _)
            (fun i => setBytes_column_length f pos d _ i)
        · intro i hi
          rw [column_setBytes_other hi, hd.2 i hi]
    exact ⟨_, rfl, hrun _ data ⟨rfl, fun _ _ => rfl⟩⟩

/-- The surviving columns and parities determine the missing columns. -/
theorem reconstruct_eq_ok (hparity : ParityOf orig parity) (hn : orig.length ≤ 255)
    (hnodup : missing.Nodup) (hlt : ∀ i ∈ missing, i < orig.length)
    (hlen : data.map List.length = orig.map List.length)
    (hkept : ∀ i, i ∉ missing → column data i = column orig i)
    (henough : missing.length ≤ (survivingRows parity).length) :
    reconstruct data parity missing = .ok orig := by
  have hstart : Rebuilt orig missing 0 data :=
    { lengths := hlen, kept := hkept, right := fun _ _ pos h => absurd h (Nat.not_lt_zero pos) }
  have hlength : data.length = orig.length := by
    have h := congrArg List.length hlen
    rwa [List.length_map, List.length_map] at h
  unfold reconstruct
  by_cases hk : missing.length = 0
  · rw [if_pos hk]
    have hnil : missing = [] := List.length_eq_zero_iff.mp hk
    refine congrArg Except.ok (eq_of_byteAt hlen (fun i pos _ => ?_))
    rw [hkept i (by rw [hnil]; exact List.not_mem_nil)]
  · rw [if_neg hk, if_neg (by omega), hlength]
    obtain ⟨sel, inv, hsel, hinv, hrows⟩ :=
      invertRows_eq_some (a := system parity missing orig.length)
        (by rw [system, List.length_map]; exact henough)
        (fun sel hsel => selected_trivial (survivingRows_pairwise parity)
          (fun r hr => hparity.row_le hr) hn hnodup hlt (by rwa [system, List.length_map] at hsel))
    rw [system, List.length_map] at hsel
    rw [system] at hrows
    dsimp only
    rw [hrows]
    have hlong : longest data = longest orig := by rw [longest, longest, hlen]
    have hend := hstart.run hparity hn hnodup hlt hsel hinv (Nat.le_refl (longest orig))
    show Except.ok ((List.range (longest data)).foldl
      (rebuildAt parity (survivingRows parity) sel (matrixBytes inv) missing) data) = _
    rw [hlong]
    refine congrArg Except.ok (eq_of_byteAt hend.lengths (fun i pos hpos => ?_))
    by_cases hi : i ∈ missing
    · exact hend.right i hi pos (lt_of_lt_of_le hpos (column_length_le_longest orig i))
    · rw [hend.kept i hi]

/-- What survives of `generateParity` is rows P, Q and R. -/
theorem ParityOf.generateParity {nparity : Nat} (hnparity : nparity ≤ 3)
    (hlen : parity.length = nparity)
    (hparity : ∀ r col, parity.getD r none = some col →
      col = column (generateParity orig nparity) r) : ParityOf orig parity := by
  have hrow : ∀ r col, parity.getD r none = some col → r < nparity := by
    intro r col h
    by_contra hr
    rw [List.getD_eq_default _ _ (by omega)] at h
    exact absurd h (by simp)
  refine { row := fun r col h => ?_, byte := fun r col pos h hpos => ?_ }
  · have := hrow r col h
    omega
  · rw [hparity r col h, byteAt_generateParity (hrow r col h) hpos]

/-- Losing data columns is undone exactly when as many parity columns survive. -/
theorem reconstruct_generateParity {nparity : Nat} (hnparity : nparity ≤ 3)
    (hn : orig.length ≤ 255) (hnodup : missing.Nodup) (hlt : ∀ i ∈ missing, i < orig.length)
    (hlen : data.map List.length = orig.map List.length)
    (hkept : ∀ i, i ∉ missing → column data i = column orig i)
    (hplen : parity.length = nparity)
    (hparity : ∀ r col, parity.getD r none = some col →
      col = column (generateParity orig nparity) r) :
    (missing.length ≤ (survivingRows parity).length →
      reconstruct data parity missing = .ok orig) ∧
    (reconstruct data parity missing =
        .error (.tooManyMissing missing.length (survivingRows parity).length) ↔
      (survivingRows parity).length < missing.length) := by
  have hok := reconstruct_eq_ok (ParityOf.generateParity hnparity hplen hparity) hn hnodup hlt
    hlen hkept
  refine ⟨hok, ⟨fun h => ?_, fun h => ?_⟩⟩
  · by_contra hle
    rw [hok (by omega)] at h
    exact absurd h (by simp)
  · rw [reconstruct, if_neg (by omega), if_pos h]

end Loop

theorem reconstruct_generateParity_two_missing :
    reconstruct [[1, 2], [0], [0, 0]] [none, some [15, 14], some [9, 38]] [2, 1] =
      .ok [[1, 2], [7], [5, 6]] := by
  refine (reconstruct_generateParity (by decide) (by decide) (by decide) (by decide)
    (by decide) ?_ rfl ?_).1 (by decide)
  · intro i hi
    match i with
    | 0 => rfl
    | 1 | 2 => simp at hi
    | _ + 3 => rfl
  · intro r col h
    match r with
    | 0 => exact absurd h (by simp)
    | 1 | 2 =>
      rw [← Option.some_inj, ← h]
      decide
    | _ + 3 => exact absurd h (by simp)

end Raidz
end ZvolRescue
