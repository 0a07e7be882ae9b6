import ZvolRescue.Lib.Extents
import ZvolRescue.Lib.Word

/-!
# Space maps

The log of a metaslab says what was allocated and freed, in order.  Replayed into a set of ranges it
tells what is in use: the bytes that were given out and not taken back since
(`Ranges.replay_exact`).
-/

namespace ZvolRescue
namespace Ondisk

open Lib

/-- Whether an entry gives space out or takes it back. -/
inductive MapType where
  | alloc
  | free
  deriving DecidableEq, Repr

namespace Spacemap

/-- One entry of a space map, in bytes. -/
structure Entry where
  kind : MapType
  offset : Nat
  run : Nat
  /-- The vdev, where the entry names one. -/
  vdev : Option Nat
  deriving DecidableEq, Repr

end Spacemap

/-- A set of byte ranges, by start and end. -/
structure Ranges where
  slice : List (Nat × Nat)
  deriving DecidableEq, Repr

namespace Ranges

open Spacemap

def new : Ranges := ⟨[]⟩

/-- The bytes that are covered. -/
def bytes (r : Ranges) : Nat := (r.slice.map (fun p => sub64 p.2 p.1)).foldl add64 0

/-- The ranges put out so far, the last one first, and whether what is added is among them. -/
structure Pass where
  out : List (Nat × Nat)
  inserted : Bool

/-- One range of the set, when `[from_, to_)` is added or taken out. -/
def passOver (from_ to_ : Nat) (add : Bool) (t : Pass) (r : Nat × Nat) : Pass :=
  if r.2 < from_ then { t with out := r :: t.out }
  else if to_ < r.1 then
    if add && !t.inserted then { out := r :: (from_, to_) :: t.out, inserted := true }
    else { t with out := r :: t.out }
  else if add then
    let widened := (min r.1 from_, max r.2 to_)
    match t.out with
    | last :: before =>
      if widened.1 ≤ last.2 then { t with out := (last.1, max last.2 widened.2) :: before }
      else { out := widened :: last :: before, inserted := true }
    | [] => { out := [widened], inserted := true }
  else
    -- What lies outside the hole is kept.
    let below := if r.1 < from_ then (r.1, from_) :: t.out else t.out
    { t with out := if to_ < r.2 then (to_, r.2) :: below else below }

/-- The order of pairs of numbers. -/
def before (r s : Nat × Nat) : Bool := r.1 < s.1 ∨ r.1 = s.1 ∧ r.2 ≤ s.2

def apply (r : Ranges) (from_ to_ : Nat) (add : Bool) : Ranges :=
  let pass := r.slice.foldl (passOver from_ to_ add) { out := [], inserted := false }
  let out := pass.out.reverse
  let out := if add && !pass.inserted then out ++ [(from_, to_)] else out
  ⟨coalesce (out.mergeSort before)⟩

/-- Add `[start, start + len)`. -/
def add (r : Ranges) (start len : Nat) : Ranges :=
  if len = 0 then r else r.apply start (satAdd64 start len) true

/-- Take `[start, start + len)` out. -/
def remove (r : Ranges) (start len : Nat) : Ranges :=
  if len = 0 then r else r.apply start (satAdd64 start len) false

/-- Some part of `[start, start + len)` is in the set. -/
def intersects (r : Ranges) (start len : Nat) : Bool :=
  r.slice.any (fun p => p.1 < satAdd64 start len ∧ start < p.2)

/-- Apply one entry of a space map that begins at `base`. -/
def replayEntry (base : Nat) (r : Ranges) (e : Spacemap.Entry) : Ranges :=
  match e.kind with
  | .alloc => r.add (satAdd64 base e.offset) e.run
  | .free => r.remove (satAdd64 base e.offset) e.run

def replay (r : Ranges) (entries : List Spacemap.Entry) (base : Nat) : Ranges :=
  entries.foldl (replayEntry base) r

/-! ## One range after another -/

section Pass

variable {from_ to_ : Nat}

/-- What is put out covers the ranges that were passed over and nothing besides what is added, and
begins where a range to come can be joined with it. -/
structure Adding (from_ to_ : Nat) (done rest : List (Nat × Nat)) (t : Pass) : Prop where
  nonempty : ∀ r ∈ t.out, r.1 < r.2
  start : ∀ s ∈ rest, s.1 ≤ to_ → ∀ r ∈ t.out, r.1 ≤ min s.1 from_
  only : ∀ x, Covers t.out x → Covers done x ∨ from_ ≤ x ∧ x < to_
  kept : ∀ x, Covers done x → Covers t.out x
  added : t.inserted = true → ∀ x, from_ ≤ x ∧ x < to_ → Covers t.out x

/-- A range that is put out beside the others. -/
theorem Adding.put {done rest : List (Nat × Nat)} {r s : Nat × Nat} {t : Pass}
    (h : Adding from_ to_ done (r :: rest) t) (hs : s.1 < s.2)
    (hsorted : ∀ u ∈ rest, r.1 ≤ u.1) (hstart : r.1 ≤ to_ → s.1 ≤ min r.1 from_)
    (honly : ∀ x, s.1 ≤ x ∧ x < s.2 → (r.1 ≤ x ∧ x < r.2) ∨ from_ ≤ x ∧ x < to_)
    (hkept : ∀ x, r.1 ≤ x ∧ x < r.2 → s.1 ≤ x ∧ x < s.2) {inserted : Bool}
    (hadded : inserted = true → t.inserted = true ∨ ∀ x, from_ ≤ x ∧ x < to_ → s.1 ≤ x ∧ x < s.2) :
    Adding from_ to_ (done ++ [r]) rest { out := s :: t.out, inserted } where
  nonempty := List.forall_mem_cons.mpr ⟨hs, h.nonempty⟩
  start u hu hle v hv := by
    have hru := hsorted u hu
    rcases List.mem_cons.mp hv with rfl | hv
    · exact (hstart (hru.trans hle)).trans (min_le_min_right _ hru)
    · exact (h.start r List.mem_cons_self (hru.trans hle) v hv).trans (min_le_min_right _ hru)
  only x hx := by
    rw [covers_append, covers_cons]
    rcases (covers_cons _ _ _).mp hx with hx | hx
    · exact (honly x hx).imp_left (fun hr => Or.inr (Or.inl hr))
    · exact (h.only x hx).imp_left Or.inl
  kept x hx := by
    rw [covers_cons]
    rcases (covers_append _ _ _).mp hx with hx | hx
    · exact Or.inr (h.kept x hx)
    · simp only [covers_cons, covers_nil, or_false] at hx
      exact Or.inl (hkept x hx)
  added hinserted x hx := by
    rw [covers_cons]
    rcases hadded hinserted with hbefore | hhere
    · exact Or.inr (h.added hbefore x hx)
    · exact Or.inl (hhere x hx)

/-- What is added is put out before the ranges that lie after it. -/
theorem Adding.insert {done rest : List (Nat × Nat)} {t : Pass} (h : Adding from_ to_ done rest t)
    (hlt : from_ < to_) (hafter : ∀ s ∈ rest, to_ < s.1) :
    Adding from_ to_ done rest { out := (from_, to_) :: t.out, inserted := true } where
  nonempty := List.forall_mem_cons.mpr ⟨hlt, h.nonempty⟩
  start s hs hle := absurd hle (not_le.mpr (hafter s hs))
  only x hx := by
    rcases (covers_cons _ _ _).mp hx with hx | hx
    · exact Or.inr hx
    · exact h.only x hx
  kept x hx := by
    rw [covers_cons]
    exact Or.inr (h.kept x hx)
  added _ x hx := by
    rw [covers_cons]
    exact Or.inl hx

/-- A range that touches what is added makes one range with it. -/
theorem touching {r : Nat × Nat} (hfrom : from_ ≤ r.2) (hto : r.1 ≤ to_) (x : Nat) :
    (min r.1 from_ ≤ x ∧ x < max r.2 to_) ↔ (r.1 ≤ x ∧ x < r.2) ∨ from_ ≤ x ∧ x < to_ := by
  omega

/-- It is joined with what was put out last. -/
theorem Adding.widen {done rest : List (Nat × Nat)} {r last : Nat × Nat} {before : List (Nat × Nat)}
    {inserted : Bool} (h : Adding from_ to_ done (r :: rest) { out := last :: before, inserted })
    (hsorted : ∀ u ∈ rest, r.1 ≤ u.1) (hfrom : from_ ≤ r.2) (hto : r.1 ≤ to_)
    (hjoin : min r.1 from_ ≤ last.2) :
    Adding from_ to_ (done ++ [r]) rest
      { out := (last.1, max last.2 (max r.2 to_)) :: before, inserted } := by
  obtain ⟨hlast, hbefore⟩ := List.forall_mem_cons.mp h.nonempty
  have hstart : last.1 ≤ min r.1 from_ := h.start r List.mem_cons_self hto last List.mem_cons_self
  have hcovers : ∀ x, (last.1 ≤ x ∧ x < max last.2 (max r.2 to_)) ↔
      (last.1 ≤ x ∧ x < last.2) ∨ (min r.1 from_ ≤ x ∧ x < max r.2 to_) :=
    @covers_join Nat _ last (min r.1 from_, max r.2 to_) hstart hjoin
  refine ⟨?_, fun u hu hle v hv => ?_, fun x hx => ?_, fun x hx => ?_, fun hinserted x hx => ?_⟩
  · exact List.forall_mem_cons.mpr ⟨hlast.trans_le (le_max_left _ _), hbefore⟩
  · have hru := hsorted u hu
    have hold : v.1 ≤ min r.1 from_ := by
      rcases List.mem_cons.mp hv with rfl | hv
      · exact hstart
      · exact h.start r List.mem_cons_self hto v (List.mem_cons_of_mem _ hv)
    exact hold.trans (min_le_min_right _ hru)
  · rw [covers_append, covers_cons]
    rcases (covers_cons _ _ _).mp hx with hx | hx
    · rcases (hcovers x).mp hx with hx | hx
      · exact (h.only x ((covers_cons _ _ _).mpr (Or.inl hx))).imp_left Or.inl
      · exact ((touching hfrom hto x).mp hx).imp_left (fun hr => Or.inr (Or.inl hr))
    · exact (h.only x ((covers_cons _ _ _).mpr (Or.inr hx))).imp_left Or.inl
  · rw [covers_cons, hcovers]
    rcases (covers_append _ _ _).mp hx with hx | hx
    · exact ((covers_cons _ _ _).mp (h.kept x hx)).imp_left Or.inl
    · simp only [covers_cons, covers_nil, or_false] at hx
      exact Or.inl (Or.inr ((touching hfrom hto x).mpr (Or.inl hx)))
  · rw [covers_cons, hcovers]
    exact Or.inl (Or.inr ((touching hfrom hto x).mpr (Or.inr hx)))

theorem Adding.passOver {done rest : List (Nat × Nat)} {r : Nat × Nat} {t : Pass}
    (h : Adding from_ to_ done (r :: rest) t) (hlt : from_ < to_) (hr : r.1 < r.2)
    (hsorted : ∀ u ∈ rest, r.1 ≤ u.1) :
    Adding from_ to_ (done ++ [r]) rest (passOver from_ to_ true t r) := by
  rw [Ranges.passOver]
  by_cases hbelow : r.2 < from_
  · rw [if_pos hbelow]
    exact h.put hr hsorted (fun _ => by omega) (fun x => Or.inl) (fun x => id) Or.inl
  · rw [if_neg hbelow]
    by_cases habove : to_ < r.1
    · rw [if_pos habove]
      cases hinserted : t.inserted with
      | true =>
        exact h.put hr hsorted (fun _ => by omega) (fun x => Or.inl) (fun x => id)
          (fun _ => Or.inl hinserted)
      | false =>
        have hafter : ∀ s ∈ r :: rest, to_ < s.1 := by
          intro s hs
          rcases List.mem_cons.mp hs with rfl | hs
          · exact habove
          · exact habove.trans_le (hsorted s hs)
        exact (h.insert hlt hafter).put hr hsorted (fun _ => by omega) (fun x => Or.inl)
          (fun x => id) Or.inl
    · rw [if_neg habove]
      have hfrom : from_ ≤ r.2 := not_lt.mp hbelow
      have hto : r.1 ≤ to_ := not_lt.mp habove
      have hwidened : min r.1 from_ < max r.2 to_ := by omega
      have hput : Adding from_ to_ (done ++ [r]) rest
          { out := (min r.1 from_, max r.2 to_) :: t.out, inserted := true } :=
        h.put hwidened hsorted (fun _ => le_refl _) (fun x => (touching hfrom hto x).mp)
          (fun x hx => (touching hfrom hto x).mpr (Or.inl hx))
          (fun _ => Or.inr (fun x hx => (touching hfrom hto x).mpr (Or.inr hx)))
      obtain ⟨out, inserted⟩ := t
      cases out with
      | nil => exact hput
      | cons last before =>
        by_cases hjoin : min r.1 from_ ≤ last.2
        · simp only [if_true, if_pos hjoin]
          exact h.widen hsorted hfrom hto hjoin
        · simp only [if_true, if_neg hjoin]
          exact hput

theorem foldl_adding (hlt : from_ < to_) (rest : List (Nat × Nat)) :
    ∀ (done : List (Nat × Nat)) (t : Pass), (∀ r ∈ rest, r.1 < r.2) →
      rest.Pairwise (fun r s => r.1 ≤ s.1) → Adding from_ to_ done rest t →
        Adding from_ to_ (done ++ rest) [] (rest.foldl (passOver from_ to_ true) t) := by
  induction rest with
  | nil =>
    intro done t _ _ h
    rw [List.append_nil]
    exact h
  | cons r rest ih =>
    intro done t hnonempty hsorted h
    obtain ⟨hr, hnonempty⟩ := List.forall_mem_cons.mp hnonempty
    obtain ⟨hfirst, hsorted⟩ := List.pairwise_cons.mp hsorted
    have hstep := ih (done ++ [r]) _ hnonempty hsorted (h.passOver hlt hr hfirst)
    rw [List.append_assoc] at hstep
    exact hstep

/-- What is put out covers the ranges that were passed over but for the hole. -/
structure Removing (from_ to_ : Nat) (done : List (Nat × Nat)) (t : Pass) : Prop where
  nonempty : ∀ r ∈ t.out, r.1 < r.2
  covers : ∀ x, Covers t.out x ↔ Covers done x ∧ ¬ (from_ ≤ x ∧ x < to_)

theorem Removing.passOver {done : List (Nat × Nat)} {r : Nat × Nat} {t : Pass}
    (h : Removing from_ to_ done t) (hlt : from_ < to_) (hr : r.1 < r.2) :
    Removing from_ to_ (done ++ [r]) (passOver from_ to_ false t r) := by
  have hput : ∀ out : List (Nat × Nat), (∀ s ∈ out, s.1 < s.2) →
      (∀ x, Covers out x ↔ (r.1 ≤ x ∧ x < r.2) ∧ ¬ (from_ ≤ x ∧ x < to_)) →
        Removing from_ to_ (done ++ [r]) { t with out := out ++ t.out } := by
    intro out hnonempty hcovers
    refine ⟨fun s hs => ?_, fun x => ?_⟩
    · exact (List.mem_append.mp hs).elim (hnonempty s) (h.nonempty s)
    · show Covers (out ++ t.out) x ↔ _
      rw [covers_append, covers_append, hcovers, h.covers, ← or_and_right]
      simp [or_comm]
  rw [Ranges.passOver]
  by_cases hbelow : r.2 < from_
  · rw [if_pos hbelow]
    exact hput [r] (by simpa using hr) (fun x => by simp; omega)
  · rw [if_neg hbelow]
    by_cases habove : to_ < r.1
    · rw [if_pos habove]
      exact hput [r] (by simpa using hr) (fun x => by simp; omega)
    · rw [if_neg habove]
      by_cases hleft : r.1 < from_
      · by_cases hright : to_ < r.2
        · simp only [if_pos hleft, if_pos hright]
          exact hput [(to_, r.2), (r.1, from_)] (by simp; omega) (fun x => by simp; omega)
        · simp only [if_pos hleft, if_neg hright]
          exact hput [(r.1, from_)] (by simpa using hleft) (fun x => by simp; omega)
      · by_cases hright : to_ < r.2
        · simp only [if_neg hleft, if_pos hright]
          exact hput [(to_, r.2)] (by simpa using hright) (fun x => by simp; omega)
        · simp only [if_neg hleft, if_neg hright]
          exact hput [] (by simp) (fun x => by simp; omega)

theorem foldl_removing (hlt : from_ < to_) (rest : List (Nat × Nat)) :
    ∀ (done : List (Nat × Nat)) (t : Pass), (∀ r ∈ rest, r.1 < r.2) →
      Removing from_ to_ done t →
        Removing from_ to_ (done ++ rest) (rest.foldl (passOver from_ to_ false) t) := by
  induction rest with
  | nil =>
    intro done t _ h
    rw [List.append_nil]
    exact h
  | cons r rest ih =>
    intro done t hnonempty h
    obtain ⟨hr, hnonempty⟩ := List.forall_mem_cons.mp hnonempty
    have hstep := ih (done ++ [r]) _ hnonempty (h.passOver hlt hr)
    rw [List.append_assoc] at hstep
    exact hstep

end Pass

/-! ## The set of bytes -/

/-- The bytes of the set. -/
def set (r : Ranges) : Set Nat := {x | Covers r.slice x}

/-- Sorted ranges of one byte at least, with a gap between any two, that end within 64 bits. -/
structure Tidy (r : Ranges) : Prop where
  separated : Separated r.slice
  bounded : ∀ x ∈ r.set, x < word - 1

theorem new_tidy : new.Tidy := ⟨separated_nil, fun x hx => absurd hx (covers_nil x)⟩

theorem before_total (r s : Nat × Nat) : (before r s || before s r) = true := by
  simp only [before, Bool.or_eq_true, decide_eq_true_eq]
  omega

theorem before_trans (r s u : Nat × Nat) (hrs : before r s = true) (hsu : before s u = true) :
    before r u = true := by
  simp only [before, decide_eq_true_eq] at hrs hsu ⊢
  omega

/-- Sorting and joining leaves separated ranges, with the same bytes. -/
theorem coalesce_mergeSort {out : List (Nat × Nat)} (hnonempty : ∀ r ∈ out, r.1 < r.2) :
    Separated (coalesce (out.mergeSort before)) ∧
      ∀ x, Covers (coalesce (out.mergeSort before)) x ↔ Covers out x := by
  have hperm : (out.mergeSort before).Perm out := List.mergeSort_perm out before
  have hsorted : (out.mergeSort before).Pairwise (fun r s => r.1 ≤ s.1) := by
    refine (List.pairwise_mergeSort before_trans before_total out).imp (fun {r s} h => ?_)
    simp only [before, decide_eq_true_eq] at h
    omega
  refine ⟨coalesce_separated (fun r hr => hnonempty r (hperm.mem_iff.mp hr)) hsorted, fun x => ?_⟩
  rw [covers_coalesce hsorted, covers_perm hperm]

theorem apply_add {r : Ranges} (h : Separated r.slice) {from_ to_ : Nat} (hlt : from_ < to_) :
    Separated (r.apply from_ to_ true).slice ∧
      (r.apply from_ to_ true).set = r.set ∪ Set.Ico from_ to_ := by
  obtain ⟨hnonempty, -, honly, hkept, hadded⟩ :=
    foldl_adding hlt r.slice [] { out := [], inserted := false } h.nonempty h.sorted
      ⟨by simp, by simp, by simp, by simp, by simp⟩
  let pass := r.slice.foldl (passOver from_ to_ true) { out := [], inserted := false }
  have hslice : (r.apply from_ to_ true).slice =
      coalesce ((if pass.inserted then pass.out.reverse
        else pass.out.reverse ++ [(from_, to_)]).mergeSort before) := by
    show coalesce (List.mergeSort (if (true && !pass.inserted) = true then
      pass.out.reverse ++ [(from_, to_)] else pass.out.reverse) before) = _
    cases pass.inserted <;> rfl
  cases hinserted : pass.inserted with
  | true =>
    obtain ⟨hseparated, hcovers⟩ :=
      coalesce_mergeSort (fun s hs => hnonempty s (List.mem_reverse.mp hs))
    rw [hinserted, if_pos rfl] at hslice
    rw [hslice]
    refine ⟨hseparated, Set.ext (fun x => ?_)⟩
    show Covers (r.apply from_ to_ true).slice x ↔ Covers r.slice x ∨ from_ ≤ x ∧ x < to_
    rw [hslice, hcovers, covers_reverse]
    exact ⟨honly x, fun hx => hx.elim (hkept x) (hadded hinserted x)⟩
  | false =>
    have hall : ∀ s ∈ pass.out.reverse ++ [(from_, to_)], s.1 < s.2 := by
      intro s hs
      rcases List.mem_append.mp hs with hs | hs
      · exact hnonempty s (List.mem_reverse.mp hs)
      · rw [List.mem_singleton.mp hs]
        exact hlt
    obtain ⟨hseparated, hcovers⟩ := coalesce_mergeSort hall
    rw [hinserted, if_neg Bool.false_ne_true] at hslice
    rw [hslice]
    refine ⟨hseparated, Set.ext (fun x => ?_)⟩
    show Covers (r.apply from_ to_ true).slice x ↔ Covers r.slice x ∨ from_ ≤ x ∧ x < to_
    rw [hslice, hcovers, covers_append, covers_reverse]
    simp only [covers_cons, covers_nil, or_false]
    exact ⟨fun hx => hx.elim (honly x) Or.inr, Or.imp_left (hkept x)⟩

theorem apply_remove {r : Ranges} (h : Separated r.slice) {from_ to_ : Nat} (hlt : from_ < to_) :
    Separated (r.apply from_ to_ false).slice ∧
      (r.apply from_ to_ false).set = r.set \ Set.Ico from_ to_ := by
  obtain ⟨hnonempty, hout⟩ :=
    foldl_removing hlt r.slice [] { out := [], inserted := false } h.nonempty ⟨by simp, by simp⟩
  obtain ⟨hseparated, hcovers⟩ :=
    coalesce_mergeSort (fun s hs => hnonempty s (List.mem_reverse.mp hs))
  refine ⟨hseparated, Set.ext (fun x => ?_)⟩
  show Covers (coalesce _) x ↔ Covers r.slice x ∧ ¬ (from_ ≤ x ∧ x < to_)
  exact (hcovers x).trans ((covers_reverse _ x).trans (hout x))

/-! ## Replay -/

/-- What an entry does to a set of bytes. -/
def replaySet (base : Nat) (s : Set Nat) (e : Spacemap.Entry) : Set Nat :=
  let run := Set.Ico (base + e.offset) (base + e.offset + e.run)
  match e.kind with
  | .alloc => s ∪ run
  | .free => s \ run

theorem Tidy.replayEntry {r : Ranges} (h : r.Tidy) {base : Nat} {e : Spacemap.Entry}
    (hfits : base + e.offset + e.run < word) :
    (replayEntry base r e).Tidy ∧ (replayEntry base r e).set = replaySet base r.set e := by
  have hstart : satAdd64 base e.offset = base + e.offset := satAdd64_of_lt (by omega)
  have hend : satAdd64 (base + e.offset) e.run = base + e.offset + e.run := satAdd64_of_lt hfits
  by_cases hrun : e.run = 0
  · have hsame : Ranges.replayEntry base r e = r := by
      rw [Ranges.replayEntry]
      cases e.kind with
      | alloc => exact if_pos hrun
      | free => exact if_pos hrun
    rw [hsame]
    refine ⟨h, ?_⟩
    rw [replaySet]
    cases e.kind <;> simp [hrun]
  · have hlt : base + e.offset < base + e.offset + e.run := by omega
    rw [Ranges.replayEntry, replaySet]
    cases e.kind with
    | alloc =>
      obtain ⟨hseparated, hset⟩ := apply_add h.separated hlt
      simp only [add, if_neg hrun, hstart, hend]
      refine ⟨⟨hseparated, fun x hx => ?_⟩, hset⟩
      rw [hset] at hx
      rcases hx with hx | hx
      · exact h.bounded x hx
      · have hx := hx.2
        omega
    | free =>
      obtain ⟨hseparated, hset⟩ := apply_remove h.separated hlt
      simp only [remove, if_neg hrun, hstart, hend]
      refine ⟨⟨hseparated, fun x hx => ?_⟩, hset⟩
      rw [hset] at hx
      exact h.bounded x hx.1

theorem Tidy.replay {base : Nat} (entries : List Spacemap.Entry) : ∀ {r : Ranges}, r.Tidy →
    (∀ e ∈ entries, base + e.offset + e.run < word) →
      (r.replay entries base).Tidy ∧
        (r.replay entries base).set = entries.foldl (replaySet base) r.set := by
  induction entries with
  | nil =>
    intro r h _
    exact ⟨h, rfl⟩
  | cons e entries ih =>
    intro r h hfits
    obtain ⟨hfirst, hrest⟩ := List.forall_mem_cons.mp hfits
    obtain ⟨htidy, hset⟩ := h.replayEntry hfirst
    obtain ⟨htidy', hset'⟩ := ih htidy hrest
    refine ⟨htidy', ?_⟩
    rw [List.foldl_cons, ← hset]
    exact hset'

/-! ## Where ranges end -/

theorem satAdd64_lt (a b : Nat) : satAdd64 a b < word :=
  Nat.lt_of_le_of_lt (Nat.min_le_right _ _) (by decide)

theorem passOver_end_lt {from_ to_ : Nat} {add : Bool} {t : Pass} {r : Nat × Nat}
    (hfrom : from_ < word) (hto : to_ < word) (hr : r.2 < word) (ht : ∀ p ∈ t.out, p.2 < word) :
    ∀ p ∈ (passOver from_ to_ add t r).out, p.2 < word := by
  have hput : ∀ {l : List (Nat × Nat)} {a : Nat × Nat}, (∀ p ∈ l, p.2 < word) → a.2 < word →
      ∀ p ∈ a :: l, p.2 < word :=
    fun hl ha => List.forall_mem_cons.mpr ⟨ha, hl⟩
  have hmax : max r.2 to_ < word := max_lt hr hto
  unfold passOver
  split
  · exact hput ht hr
  · split
    · split
      · exact hput (hput ht hto) hr
      · exact hput ht hr
    · split
      · cases hout : t.out with
        | nil => exact hput (fun p hp => by cases hp) hmax
        | cons last before =>
          rw [hout] at ht
          obtain ⟨hlast, hbefore⟩ := List.forall_mem_cons.mp ht
          simp only
          split
          · exact hput hbefore (max_lt hlast hmax)
          · exact hput ht hmax
      · have hbelow : ∀ p ∈ (if r.1 < from_ then (r.1, from_) :: t.out else t.out),
            p.2 < word := by
          split
          · exact hput ht hfrom
          · exact ht
        simp only
        split
        · exact hput hbelow hr
        · exact hbelow

theorem foldl_passOver_end_lt {from_ to_ : Nat} {add : Bool} (hfrom : from_ < word)
    (hto : to_ < word) (l : List (Nat × Nat)) : ∀ {t : Pass}, (∀ p ∈ t.out, p.2 < word) →
      (∀ p ∈ l, p.2 < word) → ∀ p ∈ (l.foldl (passOver from_ to_ add) t).out, p.2 < word := by
  induction l with
  | nil =>
    intro t ht _
    exact ht
  | cons r rest ih =>
    intro t ht hl
    obtain ⟨hr, hrest⟩ := List.forall_mem_cons.mp hl
    exact ih (passOver_end_lt hfrom hto hr ht) hrest

theorem apply_end_lt {r : Ranges} {from_ to_ : Nat} {add : Bool} (hfrom : from_ < word)
    (hto : to_ < word) (h : ∀ p ∈ r.slice, p.2 < word) :
    ∀ p ∈ (r.apply from_ to_ add).slice, p.2 < word := by
  have hout : ∀ p ∈ (r.slice.foldl (passOver from_ to_ add) { out := [], inserted := false }).out,
      p.2 < word := foldl_passOver_end_lt hfrom hto r.slice (fun p hp => by cases hp) h
  have hle : ∀ p ∈ (r.apply from_ to_ add).slice, p.2 ≤ word - 1 := by
    refine coalesce_end_le (fun p hp => ?_)
    have hp := (List.mergeSort_perm _ _).mem_iff.mp hp
    split at hp
    · rcases List.mem_append.mp hp with hp | hp
      · exact Nat.le_sub_one_of_lt (hout p (List.mem_reverse.mp hp))
      · rw [List.mem_singleton.mp hp]
        exact Nat.le_sub_one_of_lt hto
    · exact Nat.le_sub_one_of_lt (hout p (List.mem_reverse.mp hp))
  intro p hp
  exact Nat.lt_of_le_of_lt (hle p hp) (by decide)

/-- Whatever is replayed, no range ends past the largest number. -/
theorem replay_end_lt {base : Nat} (entries : List Spacemap.Entry) : ∀ {r : Ranges},
    (∀ p ∈ r.slice, p.2 < word) → ∀ p ∈ (r.replay entries base).slice, p.2 < word := by
  induction entries with
  | nil =>
    intro r h
    exact h
  | cons e rest ih =>
    intro r h
    have hstep : ∀ p ∈ (Ranges.replayEntry base r e).slice, p.2 < word := by
      unfold Ranges.replayEntry Ranges.add Ranges.remove
      cases e.kind with
      | alloc =>
        simp only
        split
        · exact h
        · exact apply_end_lt (satAdd64_lt _ _) (satAdd64_lt _ _) h
      | free =>
        simp only
        split
        · exact h
        · exact apply_end_lt (satAdd64_lt _ _) (satAdd64_lt _ _) h
    exact ih hstep

/-! ## Questions -/

/-- A range ends within 64 bits. -/
theorem Tidy.end_lt {r : Ranges} (h : r.Tidy) {p : Nat × Nat} (hp : p ∈ r.slice) : p.2 < word := by
  have hlt := h.separated.nonempty p hp
  have hlast : p.2 - 1 < word - 1 := h.bounded (p.2 - 1) ⟨p, hp, by omega, by omega⟩
  omega

theorem Tidy.intersects_iff {r : Ranges} (h : r.Tidy) {start len : Nat} (hlen : 0 < len) :
    r.intersects start len = true ↔ ∃ x, start ≤ x ∧ x < start + len ∧ x ∈ r.set := by
  simp only [intersects, List.any_eq_true, decide_eq_true_eq, satAdd64, lt_min_iff]
  constructor
  · rintro ⟨p, hp, ⟨hbefore, -⟩, hafter⟩
    have hlt := h.separated.nonempty p hp
    exact ⟨max p.1 start, by omega, by omega, p, hp, by omega, by omega⟩
  · rintro ⟨x, hstart, hend, p, hp, hpx, hxp⟩
    have hbound := h.end_lt hp
    exact ⟨p, hp, ⟨by omega, by omega⟩, by omega⟩

/-- Lengths add up without wrapping, as long as they are those of bytes of 64-bit offsets. -/
theorem foldl_add64 (lengths : List Nat) : ∀ sum : Nat, sum + lengths.sum < word →
    lengths.foldl add64 sum = sum + lengths.sum := by
  induction lengths with
  | nil =>
    intro sum _
    rfl
  | cons n lengths ih =>
    intro sum h
    rw [List.sum_cons] at h ⊢
    rw [List.foldl_cons, add64_of_lt (by omega), ih (sum + n) (by omega)]
    omega

theorem Tidy.bytes_eq {r : Ranges} (h : r.Tidy) : r.bytes = r.set.ncard := by
  obtain ⟨-, hcard⟩ := h.separated.ncard
  have hlengths : r.slice.map (fun p => sub64 p.2 p.1) = r.slice.map (fun p => p.2 - p.1) := by
    refine List.map_congr_left (fun p hp => ?_)
    exact sub64_of_le (h.end_lt hp) (le_of_lt (h.separated.nonempty p hp))
  have hfew : r.set.ncard ≤ word - 1 := by
    have hsub : r.set ⊆ Set.Iio (word - 1) := h.bounded
    calc r.set.ncard ≤ (Set.Iio (word - 1)).ncard := Set.ncard_le_ncard hsub (Set.finite_Iio _)
      _ = word - 1 := by
        rw [← Finset.coe_range, Set.ncard_coe_finset, Finset.card_range]
  have hsum : (r.slice.map (fun p => p.2 - p.1)).sum < word := by
    rw [← hcard]
    exact lt_of_le_of_lt hfew (by decide)
  rw [bytes, hlengths, foldl_add64 _ 0 (by omega), Nat.zero_add, ← hcard]
  rfl

/-- Whatever the log, what is in the set is what was allocated and not freed since, the ranges are
in order and apart, and a question about a range or about the size is one about the set. -/
theorem replay_exact {r : Ranges} (h : r.Tidy) {entries : List Spacemap.Entry} {base : Nat}
    (hfits : ∀ e ∈ entries, base + e.offset + e.run < word) :
    (r.replay entries base).set = entries.foldl (replaySet base) r.set ∧
      Separated (r.replay entries base).slice ∧
      (∀ start len, 0 < len → ((r.replay entries base).intersects start len = true ↔
        ∃ x, start ≤ x ∧ x < start + len ∧ x ∈ (r.replay entries base).set)) ∧
      (r.replay entries base).bytes = (r.replay entries base).set.ncard ∧
      (r.replay entries base).Tidy := by
  obtain ⟨htidy, hset⟩ := h.replay entries hfits
  exact ⟨hset, htidy.separated, fun start len hlen => htidy.intersects_iff hlen, htidy.bytes_eq,
    htidy⟩

/-- Half of a range is freed again, and a part beside it. -/
theorem replay_exact_split :
    (new.replay [⟨.alloc, 0, 4096, none⟩, ⟨.free, 1024, 512, none⟩] 8192).set =
      ((∅ ∪ Set.Ico 8192 12288) \ Set.Ico 9216 9728) := by
  have hfits : ∀ e ∈ [(⟨.alloc, 0, 4096, none⟩ : Spacemap.Entry), ⟨.free, 1024, 512, none⟩],
      8192 + e.offset + e.run < word := by decide
  rw [(replay_exact new_tidy hfits).1]
  have hempty : new.set = ∅ := Set.eq_empty_of_forall_notMem (fun x => covers_nil x)
  rw [hempty]
  rfl

end Ranges

end Ondisk
end ZvolRescue
