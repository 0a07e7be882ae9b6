import Mathlib.Order.Defs.PartialOrder

/-!
# Runs whose steps meet a condition

`Along step good` holds of the lists of actions each of which is `good` in the state that
the ones before it lead to.  What every good step preserves holds after such a list.
-/

namespace ZvolRescue
namespace Lib

variable {S A : Type*}

def Along (step : S → A → S) (good : S → A → Prop) : S → List A → Prop
  | _, [] => True
  | s, a :: rest => good s a ∧ Along step good (step s a) rest

theorem Along.invariant {step : S → A → S} {good : S → A → Prop} {inv : S → Prop}
    (hstep : ∀ s a, inv s → good s a → inv (step s a)) {s : S} (hs : inv s) {actions : List A}
    (h : Along step good s actions) : inv (actions.foldl step s) := by
  induction actions generalizing s with
  | nil => exact hs
  | cons a rest ih => exact ih (hstep s a hs h.1) h.2

end Lib
end ZvolRescue
