import Mathlib.Data.List.Basic

/-!
# Tokens over a window

A stream of literals and back references stands for the list that it builds.  A reference
repeats what stands `offset` before the end, element by element, so that it may run into what
it has just written (`Copied`).  There is one list that it gives (`Copied.unique`), and a shorter
reference gives the beginning of what a longer one does (`Copied.take`).
-/

namespace ZvolRescue
namespace Lib

variable {α : Type*}

/-- The elements behind a position. -/
theorem getElem?_of_drop {l rest : List α} {s : Nat} {a : α} (h : l.drop s = a :: rest) :
    l[s]? = some a ∧ l.drop (s + 1) = rest := by
  have hhead : (l.drop s)[0]? = l[s + 0]? := List.getElem?_drop
  rw [h, Nat.add_zero] at hhead
  refine ⟨hhead.symm, ?_⟩
  rw [← List.drop_drop, h]
  rfl

inductive Token (α : Type*) where
  | literal (a : α)
  | copy (offset len : Nat)

/-- `out'` is `out` followed by `len` elements, each the same as the one `offset` before it. -/
structure Copied (offset len : Nat) (out out' : List α) : Prop where
  inside : 0 < offset ∧ offset ≤ out.length
  length : out'.length = out.length + len
  kept : out <+: out'
  repeats : ∀ i, out.length ≤ i → i < out'.length → out'[i]? = out'[i - offset]?

/-- What was there is where it was. -/
theorem getElem?_of_kept {l l' : List α} (h : l <+: l') {i : Nat} (hi : i < l.length) :
    l'[i]? = l[i]? := by
  obtain ⟨rest, rfl⟩ := h
  exact List.getElem?_append_left hi

namespace Copied

variable {offset len : Nat} {out out' : List α}

theorem none (h : 0 < offset ∧ offset ≤ out.length) : Copied offset 0 out out :=
  { inside := h
    length := rfl
    kept := List.prefix_refl _
    repeats := fun i hi hlt => absurd hlt (by omega) }

/-- One element, and then the others. -/
theorem cons {a : α} (hpos : 0 < offset) (hlen : offset ≤ out.length)
    (ha : out[out.length - offset]? = some a) (h : Copied offset len (out ++ [a]) out') :
    Copied offset (len + 1) out out' := by
  have hlength := h.length
  rw [List.length_append, List.length_singleton] at hlength
  have hkept : out <+: out' := (List.prefix_append out [a]).trans h.kept
  refine ⟨⟨hpos, hlen⟩, by omega, hkept, ?_⟩
  intro i hi hlt
  by_cases hfirst : i = out.length
  · subst hfirst
    have hnew : out'[out.length]? = some a := by
      rw [getElem?_of_kept h.kept (by simp)]
      simp
    rw [hnew, getElem?_of_kept hkept (by omega), ha]
  · apply h.repeats i _ hlt
    rw [List.length_append, List.length_singleton]
    omega

theorem take (h : Copied offset len out out') {k : Nat} (hk : k ≤ len) :
    Copied offset k out (out'.take (out.length + k)) := by
  have hlength := h.length
  have htake : (out'.take (out.length + k)).length = out.length + k := by
    rw [List.length_take]
    omega
  refine ⟨h.inside, htake, ?_, ?_⟩
  · exact List.prefix_take_iff.mpr ⟨h.kept, by omega⟩
  · intro i hi hlt
    rw [htake] at hlt
    rw [List.getElem?_take_of_lt hlt, List.getElem?_take_of_lt (by omega)]
    exact h.repeats i hi (by omega)

theorem unique {other : List α} (h : Copied offset len out out')
    (hother : Copied offset len out other) : out' = other := by
  have hlength := h.length
  have hlength' := hother.length
  obtain ⟨hpos, hle⟩ := h.inside
  apply List.ext_getElem?
  intro i
  induction i using Nat.strongRecOn with
  | _ i ih =>
    by_cases hold : i < out.length
    · rw [getElem?_of_kept h.kept hold, getElem?_of_kept hother.kept hold]
    · by_cases hin : i < out.length + len
      · rw [h.repeats i (by omega) (by omega), hother.repeats i (by omega) (by omega)]
        exact ih (i - offset) (by omega)
      · rw [List.getElem?_eq_none (by omega), List.getElem?_eq_none (by omega)]

end Copied

/-- The tokens turn `out` into `full`. -/
inductive Builds : List α → List (Token α) → List α → Prop
  | nil {out : List α} : Builds out [] out
  | literal {out full : List α} {tokens : List (Token α)} {a : α}
      (rest : Builds (out ++ [a]) tokens full) : Builds out (.literal a :: tokens) full
  | copy {out out' full : List α} {tokens : List (Token α)} {offset len : Nat}
      (copied : Copied offset len out out') (rest : Builds out' tokens full) :
      Builds out (.copy offset len :: tokens) full

theorem Builds.kept {out full : List α} {tokens : List (Token α)} (h : Builds out tokens full) :
    out <+: full := by
  induction h with
  | nil => exact List.prefix_refl _
  | literal _ ih => exact (List.prefix_append _ _).trans ih
  | copy copied _ ih => exact copied.kept.trans ih

end Lib
end ZvolRescue
