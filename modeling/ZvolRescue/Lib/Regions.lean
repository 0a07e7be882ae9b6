import Mathlib.Algebra.BigOperators.Group.List.Basic
import Mathlib.Algebra.GroupWithZero.Nat
import Mathlib.Data.List.Basic
import Mathlib.Data.List.TakeDrop

/-!
# Regions of a buffer

Slices that may be out of bounds, and pieces that are written back to where they came from.
Where the regions are inside the buffer and do not overlap, `scatter` writes each piece to its
region and nothing else (`scatter_spec`).
-/

namespace ZvolRescue
namespace Lib

variable {α : Type*}

/-- The elements from `start` to before `stop`, where these are in bounds. -/
def slice (b : List α) (start stop : Nat) : Option (List α) :=
  if start ≤ stop ∧ stop ≤ b.length then some ((b.drop start).take (stop - start)) else none

/-- The elements of `src` written over those from `start` on. -/
def overwrite (b : List α) (start : Nat) (src : List α) : Option (List α) :=
  if start + src.length ≤ b.length then some (b.take start ++ src ++ b.drop (start + src.length))
  else none

/-- An offset and a length. -/
abbrev Region := Nat × Nat

def Region.Has (r : Region) (k : Nat) : Prop := r.1 ≤ k ∧ k < r.1 + r.2

/-- What is in a region. -/
def regionOf (b : List α) (r : Region) : List α := (b.drop r.1).take r.2

/-- What is in the regions, one after another. -/
def gather (b : List α) (regions : List Region) : List α := regions.flatMap (regionOf b)

/-- Write what `src` has from `pos` on to the regions, one after another. -/
def scatter (src : List α) : List Region → (pos : Nat) → List α → Option (List α)
  | [], _, b => some b
  | (off, len) :: regions, pos, b => do
    let piece ← slice src pos (pos + len)
    let b ← overwrite b off piece
    scatter src regions (pos + len) b

/-- Write each piece to its place, one after another. -/
def overwriteAll : List (Nat × List α) → List α → Option (List α)
  | [], b => some b
  | (start, piece) :: writes, b => (overwrite b start piece).bind (overwriteAll writes)

/-- Regions in order, without overlap, inside a buffer of this length. -/
structure Apart (length : Nat) (regions : List Region) : Prop where
  disjoint : regions.Pairwise (fun r r' => r.1 + r.2 ≤ r'.1)
  inside : ∀ r ∈ regions, r.1 + r.2 ≤ length

section Slices

theorem slice_eq {b : List α} {start stop : Nat} (h : start ≤ stop) (hstop : stop ≤ b.length) :
    slice b start stop = some ((b.drop start).take (stop - start)) := if_pos ⟨h, hstop⟩

theorem gather_cons (b : List α) (r : Region) (regions : List Region) :
    gather b (r :: regions) = regionOf b r ++ gather b regions := List.flatMap_cons

theorem gather_append (b : List α) (regions regions' : List Region) :
    gather b (regions ++ regions') = gather b regions ++ gather b regions' := List.flatMap_append

theorem regionOf_length {b : List α} {r : Region} (h : r.1 + r.2 ≤ b.length) :
    (regionOf b r).length = r.2 := by
  rw [regionOf, List.length_take, List.length_drop]
  omega

theorem gather_length {b : List α} {regions : List Region}
    (h : ∀ r ∈ regions, r.1 + r.2 ≤ b.length) :
    (gather b regions).length = (regions.map Prod.snd).sum := by
  induction regions with
  | nil => rfl
  | cons r regions ih =>
    rw [gather_cons, List.length_append, regionOf_length (h r List.mem_cons_self),
      ih (fun r' hr' => h r' (List.mem_cons_of_mem _ hr')), List.map_cons, List.sum_cons]

/-- What is in a region is told by the elements there. -/
theorem regionOf_congr {b b' : List α} {r : Region}
    (h : ∀ k, r.Has k → b'[k]? = b[k]?) : regionOf b' r = regionOf b r := by
  apply List.ext_getElem?
  intro i
  rw [regionOf, regionOf, List.getElem?_take, List.getElem?_take]
  split
  · rw [List.getElem?_drop, List.getElem?_drop]
    exact h _ ⟨by omega, by omega⟩
  · rfl

theorem gather_congr {b b' : List α} {regions : List Region}
    (h : ∀ r ∈ regions, ∀ k, r.Has k → b'[k]? = b[k]?) : gather b' regions = gather b regions := by
  induction regions with
  | nil => rfl
  | cons r regions ih =>
    rw [gather_cons, gather_cons, regionOf_congr (h r List.mem_cons_self),
      ih (fun r' hr' => h r' (List.mem_cons_of_mem _ hr'))]

/-- The elements of a region are told by what is in it. -/
theorem getElem?_of_regionOf {b b' : List α} {r : Region} (h : regionOf b' r = regionOf b r)
    {k : Nat} (hk : r.Has k) : b'[k]? = b[k]? := by
  obtain ⟨hle, hlt⟩ := hk
  have hat : ∀ l : List α, (regionOf l r)[k - r.1]? = l[k]? := by
    intro l
    rw [regionOf, List.getElem?_take, if_pos (by omega), List.getElem?_drop,
      Nat.add_sub_cancel' hle]
  rw [← hat b', ← hat b, h]

/-- What is in each region is told by what is in all of them. -/
theorem regionOf_of_gather {b b' : List α} {regions : List Region}
    (hinside : ∀ r ∈ regions, r.1 + r.2 ≤ b.length) (hlength : b'.length = b.length)
    (h : gather b' regions = gather b regions) : ∀ r ∈ regions, regionOf b' r = regionOf b r := by
  induction regions with
  | nil => exact List.forall_mem_nil _
  | cons r regions ih =>
    obtain ⟨hr, hrest⟩ := List.forall_mem_cons.mp hinside
    rw [gather_cons, gather_cons] at h
    have hsame : (regionOf b' r).length = (regionOf b r).length := by
      rw [regionOf_length hr, regionOf_length (hlength ▸ hr)]
    obtain ⟨hhead, htail⟩ := List.append_inj h hsame
    exact List.forall_mem_cons.mpr ⟨hhead, ih hrest htail⟩

theorem getD_of_regionOf {b piece : List α} {start : Nat}
    (h : regionOf b (start, piece.length) = piece) (d : α) {i : Nat} (hi : i < piece.length) :
    b.getD (start + i) d = piece.getD i d := by
  rw [← h, regionOf, List.getD_eq_getElem?_getD, List.getD_eq_getElem?_getD, List.getElem?_take,
    if_pos hi, List.getElem?_drop]

/-- The pieces of a buffer that was put together from pieces of one length. -/
theorem regionOf_flatten {l : List (List α)} {k : Nat} (h : ∀ x ∈ l, x.length = k) {i : Nat}
    (hi : i < l.length) : regionOf l.flatten (i * k, k) = l[i] := by
  induction l generalizing i with
  | nil => exact absurd hi (Nat.not_lt_zero i)
  | cons x l ih =>
    have hx := h x List.mem_cons_self
    cases i with
    | zero =>
      rw [regionOf, List.flatten_cons, Nat.zero_mul, List.drop_zero, List.take_left' hx]
      rfl
    | succ i =>
      have hrest := ih (fun y hy => h y (List.mem_cons_of_mem _ hy)) (Nat.lt_of_succ_lt_succ hi)
      rw [regionOf] at hrest ⊢
      rw [List.flatten_cons, Nat.succ_mul, Nat.add_comm, ← List.drop_drop, List.drop_left' hx, hrest]
      rfl

end Slices

/-- The buffer with one region written. -/
structure Overwritten (b b' : List α) (start : Nat) (src : List α) : Prop where
  length : b'.length = b.length
  outside : ∀ k, ¬ (start ≤ k ∧ k < start + src.length) → b'[k]? = b[k]?
  inside : regionOf b' (start, src.length) = src

/-- What is written behind a beginning stands behind it. -/
theorem take_overwrite (buf data : List α) {n : Nat} (h : n + data.length ≤ buf.length) :
    ∃ buf', overwrite buf n data = some buf' ∧ buf'.length = buf.length ∧
      buf'.take (n + data.length) = buf.take n ++ data := by
  have htake : (buf.take n ++ data).length = n + data.length := by
    rw [List.length_append, List.length_take]
    omega
  refine ⟨_, if_pos h, ?_, List.take_left' htake⟩
  rw [List.length_append, htake, List.length_drop]
  omega

theorem overwrite_spec {b src : List α} {start : Nat} (h : start + src.length ≤ b.length) :
    ∃ b', overwrite b start src = some b' ∧ Overwritten b b' start src := by
  have htake : (b.take start).length = start := by
    rw [List.length_take]
    omega
  refine ⟨_, if_pos h, { length := ?_, outside := fun k hk => ?_, inside := ?_ }⟩
  · rw [List.length_append, List.length_append, htake, List.length_drop]
    omega
  · by_cases hlt : k < start
    · rw [List.append_assoc, List.getElem?_append_left (by omega), List.getElem?_take, if_pos hlt]
    · rw [List.getElem?_append_right (by rw [List.length_append]; omega), List.length_append, htake,
        List.getElem?_drop]
      congr 1
      omega
  · rw [regionOf, List.append_assoc, List.drop_append_of_le_length (by omega),
      List.drop_of_length_le (by omega), List.nil_append, List.take_left]

/-- Each piece is written to its region, and nothing else. -/
theorem scatter_spec {src : List α} {regions : List Region} {pos : Nat} {b : List α}
    (h : Apart b.length regions) (hsrc : src.length = pos + (regions.map Prod.snd).sum) :
    ∃ b', scatter src regions pos b = some b' ∧ b'.length = b.length ∧
      (∀ k, (∀ r ∈ regions, ¬ r.Has k) → b'[k]? = b[k]?) ∧
      gather b' regions = src.drop pos := by
  induction regions generalizing pos b with
  | nil =>
    refine ⟨b, rfl, rfl, fun _ _ => rfl, ?_⟩
    rw [List.drop_of_length_le (by rw [hsrc]; exact Nat.le_refl _)]
    rfl
  | cons r regions ih =>
    obtain ⟨off, len⟩ := r
    have hinside := h.inside (off, len) List.mem_cons_self
    dsimp only at hinside
    rw [List.map_cons, List.sum_cons] at hsrc
    dsimp only at hsrc
    have hpiece : ((src.drop pos).take len).length = len := by
      rw [List.length_take, List.length_drop]
      omega
    obtain ⟨b₁, hb₁, hone⟩ := @overwrite_spec _ b ((src.drop pos).take len) off
      (by rw [hpiece]; exact hinside)
    have hrest : Apart b₁.length regions :=
      { disjoint := (List.pairwise_cons.mp h.disjoint).2
        inside := fun r hr => by
          rw [hone.length]
          exact h.inside r (List.mem_cons_of_mem _ hr) }
    obtain ⟨b', hb', hlength, houtside, hgather⟩ := @ih (pos + len) b₁ hrest (by omega)
    refine ⟨b', ?_, hlength.trans hone.length, fun k hk => ?_, ?_⟩
    · rw [scatter, slice_eq (by omega) (by omega), Nat.add_sub_cancel_left]
      show (overwrite b off ((src.drop pos).take len)).bind _ = _
      rw [hb₁]
      exact hb'
    · rw [houtside k (fun r hr => hk r (List.mem_cons_of_mem _ hr))]
      refine hone.outside k ?_
      rw [hpiece]
      exact hk (off, len) List.mem_cons_self
    · have hfirst : regionOf b' (off, len) = regionOf b₁ (off, len) := by
        refine regionOf_congr (fun k hk => houtside k (fun r hr hr' => ?_))
        have hbefore := (List.pairwise_cons.mp h.disjoint).1 r hr
        have hlt := hk.2
        have hle := hr'.1
        dsimp only at hbefore hlt
        omega
      have hwritten := hone.inside
      rw [hpiece] at hwritten
      rw [gather_cons, hfirst, hwritten, hgather, ← List.drop_drop, List.take_append_drop]

/-- The regions that are written. -/
def regionsOf (writes : List (Nat × List α)) : List Region :=
  writes.map (fun w => (w.1, w.2.length))

/-- Pieces that do not overlap all end up where they are written. -/
theorem overwriteAll_spec {writes : List (Nat × List α)} {b : List α}
    (h : Apart b.length (regionsOf writes)) :
    ∃ b', overwriteAll writes b = some b' ∧ b'.length = b.length ∧
      (∀ k, (∀ r ∈ regionsOf writes, ¬ r.Has k) → b'[k]? = b[k]?) ∧
      ∀ w ∈ writes, regionOf b' (w.1, w.2.length) = w.2 := by
  induction writes generalizing b with
  | nil => exact ⟨b, rfl, rfl, fun _ _ => rfl, fun w hw => absurd hw List.not_mem_nil⟩
  | cons w writes ih =>
    obtain ⟨start, piece⟩ := w
    have hbefore : ∀ r ∈ regionsOf writes, start + piece.length ≤ r.1 :=
      (List.pairwise_cons.mp h.disjoint).1
    obtain ⟨b₁, hb₁, hone⟩ :=
      overwrite_spec (h.inside (start, piece.length) List.mem_cons_self)
    have hrest : Apart b₁.length (regionsOf writes) :=
      { disjoint := (List.pairwise_cons.mp h.disjoint).2
        inside := fun r hr => by
          rw [hone.length]
          exact h.inside r (List.mem_cons_of_mem _ hr) }
    obtain ⟨b', hb', hlength, houtside, hinside⟩ := ih hrest
    refine ⟨b', ?_, hlength.trans hone.length, fun k hk => ?_, ?_⟩
    · rw [overwriteAll, hb₁]
      exact hb'
    · rw [houtside k (fun r hr => hk r (List.mem_cons_of_mem _ hr))]
      exact hone.outside k (hk (start, piece.length) List.mem_cons_self)
    · intro w hw
      rcases List.mem_cons.mp hw with rfl | hw
      · -- What is written later begins behind this piece.
        rw [regionOf_congr (fun k hk => houtside k (fun r hr hhas => ?_))]
        · exact hone.inside
        · have hlt : k < start + piece.length := hk.2
          exact absurd (hbefore r hr) (Nat.not_le.mpr (Nat.lt_of_le_of_lt hhas.1 hlt))
      · exact hinside w hw

end Lib
end ZvolRescue
