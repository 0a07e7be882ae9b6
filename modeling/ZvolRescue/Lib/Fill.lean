import Mathlib.Data.List.Nodup
import Mathlib.Logic.Function.Basic

/-!
# Slots that are only filled

A slot is vacant or holds something, and a slot that holds something keeps it.  Whatever the order
in which vacant slots are filled, a slot is filled once at most, and holds in the end what it held
at first or what it was filled with (`Fills.eq_some_iff`).
-/

namespace ZvolRescue
namespace Lib

variable {σ δ : Type*} [DecidableEq σ]

/-- `g` comes from `f` by filling these slots, one after another, each vacant at its turn. -/
inductive Fills : (σ → Option δ) → List (σ × δ) → (σ → Option δ) → Prop
  | nil (f : σ → Option δ) : Fills f [] f
  | cons {f g : σ → Option δ} {s : σ} {d : δ} {rest : List (σ × δ)} (vacant : f s = none)
    (after : Fills (Function.update f s (some d)) rest g) : Fills f ((s, d) :: rest) g

namespace Fills

variable {f g : σ → Option δ} {filled : List (σ × δ)}

theorem eq_some_iff (h : Fills f filled g) {s : σ} {d : δ} :
    g s = some d ↔ f s = some d ∨ (s, d) ∈ filled := by
  induction h with
  | nil f => simp
  | @cons f g s' d' rest vacant h ih =>
    rw [ih, List.mem_cons]
    by_cases hs : s = s'
    · subst hs
      rw [Function.update_self, vacant]
      simp [eq_comm]
    · rw [Function.update_of_ne hs]
      simp [hs]

/-- A slot keeps what it holds. -/
theorem keeps (h : Fills f filled g) {s : σ} {d : δ} (hs : f s = some d) : g s = some d :=
  h.eq_some_iff.mpr (Or.inl hs)

/-- What was filled was vacant. -/
theorem vacant (h : Fills f filled g) {p : σ × δ} (hp : p ∈ filled) : f p.1 = none := by
  induction h with
  | nil f => cases hp
  | @cons f g s d rest vacant h ih =>
    rcases List.mem_cons.mp hp with rfl | hp
    · exact vacant
    · have hupdate := ih hp
      by_cases hs : p.1 = s
      · rw [hs]
        exact vacant
      · rwa [Function.update_of_ne hs] at hupdate

/-- No slot is filled twice. -/
theorem nodup (h : Fills f filled g) : (filled.map Prod.fst).Nodup := by
  induction h with
  | nil f => exact List.nodup_nil
  | @cons f g s d rest vacant h ih =>
    rw [List.map_cons, List.nodup_cons]
    refine ⟨fun hmem => ?_, ih⟩
    obtain ⟨p, hp, hs⟩ := List.mem_map.mp hmem
    have hnone := h.vacant hp
    rw [hs, Function.update_self] at hnone
    cases hnone

/-- Of the slots that are filled from, each that was vacant is filled or stays so. -/
theorem countP_vacant (h : Fills f filled g) {slots : List σ} (hslots : slots.Nodup)
    (hmem : ∀ p ∈ filled, p.1 ∈ slots) :
    slots.countP (fun s => (g s).isNone) + filled.length =
      slots.countP (fun s => (f s).isNone) := by
  induction h with
  | nil f => rfl
  | @cons f g s d rest vacant h ih =>
    rw [List.length_cons, ← Nat.add_assoc, ih (fun p hp => hmem p (List.mem_cons_of_mem _ hp))]
    have hs : s ∈ slots := hmem (s, d) List.mem_cons_self
    clear ih h hmem
    induction slots with
    | nil => cases hs
    | cons s' slots ih =>
      obtain ⟨hnot, hslots⟩ := List.nodup_cons.mp hslots
      rw [List.countP_cons, List.countP_cons]
      rcases List.mem_cons.mp hs with rfl | hs
      · rw [Function.update_self, vacant]
        have hsame : slots.countP (fun s' => (Function.update f s (some d) s').isNone) =
            slots.countP (fun s' => (f s').isNone) := by
          refine List.countP_congr (fun s' hs' => ?_)
          rw [Function.update_of_ne (ne_of_mem_of_not_mem hs' hnot)]
        rw [hsame]
        simp
      · rw [Function.update_of_ne (ne_of_mem_of_not_mem hs hnot).symm]
        have := ih hslots hs
        omega

end Fills

end Lib
end ZvolRescue
