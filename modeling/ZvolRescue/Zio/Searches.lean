import ZvolRescue.Lib.Choose
import ZvolRescue.Lib.Orderings

/-!
# The two searches

Which columns of a row are distrusted is tried subset by subset, and the member order of a
hand-written layout ordering by ordering.  Both searches go deeper with one list that each round
changes and puts back as it was (`Picking.go_eq`, `permuteFrom_eq`).
-/

namespace ZvolRescue
namespace Zio

open Lib

/-! ## Subsets -/

/-- The indices picked so far, and the subsets found. -/
structure Picking where
  cur : List Nat
  out : List (List Nat)

namespace Picking

def push (p : Picking) (i : Nat) : Picking := { p with cur := p.cur ++ [i] }

def pop (p : Picking) : Picking := { p with cur := p.cur.dropLast }

def found (p : Picking) : Picking := { p with out := p.out ++ [p.cur] }

/-- The rounds from `start` on.  A call goes on from a later index than its caller, so `n` levels
are enough for every start. -/
def go (n k : Nat) : (levels start : Nat) → Picking → Picking
  | 0, _, p => if p.cur.length = k then p.found else p
  | levels + 1, start, p =>
    if p.cur.length = k then p.found
    else (List.range' start (n - start)).foldl (fun p i => (go n k levels (i + 1) (p.push i)).pop) p

end Picking

/-- All `k`-element index subsets of `0..n`, in lexicographic order. -/
def combinations (n k : Nat) : List (List Nat) := (Picking.go n k n 0 ⟨[], []⟩).out

namespace Picking

/-- Rounds that each find the choices after their index find all of them. -/
theorem rounds_eq {n k left start : Nat} {p : Picking} {round : Picking → Nat → Picking}
    (hround : ∀ i p, start ≤ i → round p i =
      { p with out := p.out ++ chooseFrom k (n - (i + 1)) (i + 1) (p.cur ++ [i]) })
    (hk : p.cur.length ≠ k) (hleft : n - start = left) :
    (List.range' start left).foldl round p =
      { p with out := p.out ++ chooseFrom k left start p.cur } := by
  induction left generalizing start p with
  | zero =>
    rw [chooseFrom, if_neg hk, List.append_nil]
    rfl
  | succ left ih =>
    have hrest : n - (start + 1) = left := by omega
    rw [List.range'_succ, List.foldl_cons, hround start p (Nat.le_refl start), hrest,
      ih (fun i p hi => hround i p (Nat.le_of_succ_le hi)) (by exact hk) hrest, chooseFrom,
      if_neg hk, List.append_assoc]

/-- The list is put back, and what is found is what the choices from here on are. -/
theorem go_eq {n k levels start : Nat} {p : Picking} (hlevels : n ≤ start + levels) :
    go n k levels start p =
      { p with out := p.out ++ chooseFrom k (n - start) start p.cur } := by
  induction levels generalizing start p with
  | zero =>
    rw [go, Nat.sub_eq_zero_of_le (by exact hlevels), chooseFrom]
    split
    · rfl
    · rw [List.append_nil]
  | succ levels ih =>
    rw [go]
    by_cases hk : p.cur.length = k
    · have hone : chooseFrom k (n - start) start p.cur = [p.cur] := by
        cases n - start <;> rw [chooseFrom, if_pos hk]
      rw [if_pos hk, hone]
      rfl
    · rw [if_neg hk]
      apply rounds_eq _ hk rfl
      intro i p hi
      rw [ih (by omega), pop, push, List.dropLast_concat]

end Picking

theorem combinations_eq_choose (n k : Nat) : combinations n k = choose n k := by
  rw [combinations, Picking.go_eq (Nat.le_add_left n 0), choose]
  rfl

/-! ## Orderings -/

section Permute

variable {σ : Type}

/-- The rounds from position `k` on, with what `f` has made of the orderings so far.  Each level
is one position further, so as many levels as there are elements are enough. -/
def permuteFrom (f : List Nat → σ → σ) :
    (levels k : Nat) → List Nat × σ → List Nat × σ
  | 0, k, st => if k = st.1.length then (st.1, f st.1 st.2) else st
  | levels + 1, k, st =>
    if k = st.1.length then (st.1, f st.1 st.2)
    else (List.range' k (st.1.length - k)).foldl
      (fun st i =>
        let called := permuteFrom f levels (k + 1) (swapAt st.1 k i, st.2)
        (swapAt called.1 k i, called.2)) st

/-- Call `f` on the orderings of `order`, from the state `s`. -/
def permute (f : List Nat → σ → σ) (order : List Nat) (s : σ) : List Nat × σ :=
  permuteFrom f order.length 0 (order, s)

/-- The list is put back, and `f` is called on the orderings of what follows position `k`. -/
theorem permuteFrom_eq {f : List Nat → σ → σ} {levels left k : Nat} {order : List Nat} {s : σ}
    (hleft : k + left = order.length) (hlevels : left ≤ levels) :
    permuteFrom f levels k (order, s) =
      (order, (orderings left k order).foldl (fun s o => f o s) s) := by
  induction levels generalizing left k order s with
  | zero =>
    obtain rfl : left = 0 := by omega
    rw [permuteFrom, if_pos (by exact hleft), orderings]
    rfl
  | succ levels ih =>
    rw [permuteFrom]
    cases left with
    | zero =>
      rw [if_pos (by exact hleft), orderings]
      rfl
    | succ left =>
      have hcount : order.length - k = left + 1 := by omega
      rw [if_neg (by simp only; omega), orderings]
      simp only [hcount]
      generalize List.range' k (left + 1) = rounds
      induction rounds generalizing s with
      | nil => rfl
      | cons i rounds ihr =>
        have hlen : k + 1 + left = (swapAt order k i).length := by
          rw [length_swapAt]
          omega
        rw [List.foldl_cons, ih hlen (by omega), swapAt_swapAt, ihr, List.flatMap_cons,
          List.foldl_append]

theorem permute_eq (f : List Nat → σ → σ) (order : List Nat) (s : σ) :
    permute f order s =
      (order, (orderings order.length 0 order).foldl (fun s o => f o s) s) :=
  permuteFrom_eq (Nat.zero_add _) (Nat.le_refl _)

end Permute

/-! ## The member orders of a layout -/

/-- One vdev of a hand-written layout: a top-level vdev, or a group inside one. -/
structure TopHint where
  kind : String
  nparity : Option Nat
  draidNdata : Option Nat
  draidNspares : Option Nat
  draidNgroups : Option Nat
  /-- Indices of the scanned devices; `none` for a member that was not supplied. -/
  members : List (Option Nat)
  children : List TopHint

/-- A whole pool described by hand. -/
structure LayoutHints where
  name : Option String
  guid : Option Nat
  ashift : Nat
  tops : List TopHint

/-- The layout with other members of one top-level vdev. -/
def LayoutHints.withMembers (layout : LayoutHints) (top : Nat) (members : List (Option Nat)) :
    LayoutHints :=
  { layout with tops := layout.tops.modify top (fun t => { t with members := members }) }

/-- Every ordering of the members of one top-level vdev, as layouts.  There is none for a vdev the
layout does not have, where the source stops. -/
def permutations (layout : LayoutHints) (top : Nat) : Option (List LayoutHints) :=
  layout.tops[top]?.map (fun t =>
    (permute
      (fun o out => out ++ [layout.withMembers top (o.map (fun i => t.members.getD i none))])
      (List.range t.members.length) []).2)

theorem LayoutHints.withMembers_inj {layout : LayoutHints} {top : Nat} {t : TopHint}
    {members members' : List (Option Nat)} (ht : layout.tops[top]? = some t)
    (h : layout.withMembers top members = layout.withMembers top members') :
    members = members' := by
  have htops := congrArg (fun l : LayoutHints => l.tops[top]?.map TopHint.members) h
  simpa only [withMembers, List.getElem?_modify_eq, ht, Option.map_eq_map, Option.map_some,
    Option.some.injEq] using htops

/-- The layouts are those that differ in the order of the members, and none is tried twice where
no member stands twice. -/
theorem permutations_spec {layout : LayoutHints} {top : Nat} {t : TopHint}
    (ht : layout.tops[top]? = some t) :
    ∃ layouts, permutations layout top = some layouts ∧
      (∀ l, l ∈ layouts ↔ ∃ members, members.Perm t.members ∧ l = layout.withMembers top members) ∧
      (t.members.Nodup → layouts.Nodup) := by
  refine ⟨(orderings (List.range t.members.length).length 0 (List.range t.members.length)).map
    (fun o => layout.withMembers top (o.map (fun i => t.members.getD i none))), ?_, fun l => ?_,
    fun hnodup => ?_⟩
  · rw [permutations, ht, Option.map_some, permute_eq]
    simp only [List.foldl_append_eq_append, List.nil_append, ← List.flatMap_def,
      ← List.map_eq_flatMap]
  · rw [List.mem_map]
    constructor
    · rintro ⟨o, ho, rfl⟩
      exact ⟨_, (perm_iff_places none).mpr ⟨o, mem_orderings_self.mp ho, rfl⟩, rfl⟩
    · rintro ⟨members, hmembers, rfl⟩
      obtain ⟨o, ho, rfl⟩ := (perm_iff_places none).mp hmembers
      exact ⟨o, mem_orderings_self.mpr ho, rfl⟩
  · refine List.Nodup.map_on (fun o ho o' ho' heq => ?_)
      (orderings_nodup (Nat.zero_add _) List.nodup_range)
    have hin : ∀ o ∈ orderings (List.range t.members.length).length 0
        (List.range t.members.length), ∀ i ∈ o, i < t.members.length := fun o ho i hi =>
      List.mem_range.mp ((mem_orderings_self.mp ho).mem_iff.mp hi)
    exact places_inj hnodup none (hin o ho) (hin o' ho') (LayoutHints.withMembers_inj ht heq)

/-! ## What the searches go through -/

/-- The searches go through everything once: every subset, in the order of a dictionary, and every
ordering, with the list left as it was found. -/
theorem searches_enumerate :
    (∀ n k, (combinations n k).Pairwise (List.Lex (· < ·)) ∧ (combinations n k).Nodup ∧
      ∀ c, c ∈ combinations n k ↔ c.Pairwise (· < ·) ∧ (∀ i ∈ c, i < n) ∧ c.length = k) ∧
    ∀ order : List Nat, order.Nodup → ∃ calls : List (List Nat),
      calls.Nodup ∧ (∀ o, o ∈ calls ↔ o.Perm order) ∧
      ∀ (σ : Type) (f : List Nat → σ → σ) (s : σ),
        permute f order s = (order, calls.foldl (fun s o => f o s) s) := by
  refine ⟨fun n k => ?_, fun order hnodup => ?_⟩
  · rw [combinations_eq_choose]
    have hsorted := choose_sorted n k
    refine ⟨hsorted, hsorted.imp fun hlt => ?_, fun c => mem_choose⟩
    rintro rfl
    exact irrefl _ hlt
  · exact ⟨orderings order.length 0 order, orderings_nodup (Nat.zero_add _) hnodup,
      fun o => mem_orderings_self, fun σ f s => permute_eq f order s⟩

theorem searches_enumerate_three :
    combinations 3 2 = [[0, 1], [0, 2], [1, 2]] ∧
      permute (fun o out => out ++ [o]) [0, 1, 2] [] =
        ([0, 1, 2], [[0, 1, 2], [0, 2, 1], [1, 0, 2], [1, 2, 0], [2, 1, 0], [2, 0, 1]]) ∧
      ∃ calls : List (List Nat), calls.Nodup ∧ (∀ o, o ∈ calls ↔ o.Perm [0, 1, 2]) ∧
        ∀ (σ : Type) (f : List Nat → σ → σ) (s : σ),
          permute f [0, 1, 2] s = ([0, 1, 2], calls.foldl (fun s o => f o s) s) :=
  ⟨by decide, by decide, searches_enumerate.2 [0, 1, 2] (by decide)⟩

end Zio
end ZvolRescue
