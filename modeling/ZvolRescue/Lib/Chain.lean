import Mathlib.Data.List.Nodup
import Mathlib.Data.List.Perm.Subperm

/-!
# Following a chain

A chain that stays in a list and ends takes no more steps than the list is long, so that many
rounds are as good as any number (`follow_stable`).
-/

namespace ZvolRescue
namespace Lib

variable {α : Type*} {step : α → Option α}

/-- Follow the chain to its end, if this many rounds are enough. -/
def follow (step : α → Option α) : (rounds : Nat) → α → Option α
  | 0, _ => none
  | rounds + 1, a =>
    match step a with
    | none => some a
    | some b => follow step rounds b

/-- The chain ends at this element after so many steps. -/
inductive EndsAt (step : α → Option α) : Nat → α → α → Prop
  | here {a : α} (h : step a = none) : EndsAt step 0 a a
  | next {k : Nat} {a b z : α} (h : step a = some b) (hend : EndsAt step k b z) :
    EndsAt step (k + 1) a z

theorem EndsAt.unique {k k' : Nat} {a z z' : α} (h : EndsAt step k a z)
    (h' : EndsAt step k' a z') : k = k' ∧ z = z' := by
  induction h generalizing k' with
  | here hstep =>
    cases h' with
    | here _ => exact ⟨rfl, rfl⟩
    | next hstep' _ => rw [hstep] at hstep'; cases hstep'
  | next hstep _ ih =>
    cases h' with
    | here hstep' => rw [hstep] at hstep'; cases hstep'
    | next hstep' hend' =>
      rw [hstep] at hstep'
      obtain rfl := Option.some.inj hstep'
      obtain ⟨rfl, rfl⟩ := ih hend'
      exact ⟨rfl, rfl⟩

theorem follow_eq_some {rounds : Nat} {a z : α} :
    follow step rounds a = some z ↔ ∃ k < rounds, EndsAt step k a z := by
  induction rounds generalizing a with
  | zero => simp [follow]
  | succ rounds ih =>
    rw [follow]
    cases hstep : step a with
    | none =>
      constructor
      · intro h
        cases h
        exact ⟨0, Nat.succ_pos rounds, .here hstep⟩
      · rintro ⟨k, -, hend⟩
        rw [(hend.unique (.here hstep)).2]
    | some b =>
      show follow step rounds b = some z ↔ _
      rw [ih]
      constructor
      · rintro ⟨k, hk, hend⟩
        exact ⟨k + 1, Nat.succ_lt_succ hk, .next hstep hend⟩
      · rintro ⟨k, hk, hend⟩
        cases hend with
        | here hstep' => rw [hstep] at hstep'; cases hstep'
        | next hstep' hend =>
          rw [hstep] at hstep'
          obtain rfl := Option.some.inj hstep'
          exact ⟨_, Nat.lt_of_succ_lt_succ hk, hend⟩

variable {s : List α}

/-- The elements of a chain that ends are distinct. -/
theorem EndsAt.exists_nodup (hclosed : ∀ a ∈ s, ∀ b, step a = some b → b ∈ s) {k : Nat} {a z : α}
    (h : EndsAt step k a z) (ha : a ∈ s) : ∃ l : List α, l.length = k + 1 ∧ l.Nodup ∧
      ∀ b ∈ l, b ∈ s ∧ ∃ j ≤ k, EndsAt step j b z := by
  induction h with
  | @here a hstep =>
    refine ⟨[a], rfl, List.nodup_singleton a, fun b hb => ?_⟩
    rw [List.mem_singleton.mp hb]
    exact ⟨ha, 0, Nat.le_refl _, .here hstep⟩
  | @next k a b z hstep hend ih =>
    obtain ⟨l, hlen, hnodup, hl⟩ := ih (hclosed a ha b hstep)
    refine ⟨a :: l, by rw [List.length_cons, hlen], List.nodup_cons.mpr ⟨fun hin => ?_, hnodup⟩, ?_⟩
    · obtain ⟨-, j, hj, hend'⟩ := hl a hin
      have hlong := (hend'.unique (.next hstep hend)).1
      omega
    · intro c hc
      rcases List.mem_cons.mp hc with rfl | hc
      · exact ⟨ha, k + 1, Nat.le_refl _, .next hstep hend⟩
      · obtain ⟨hin, j, hj, hend'⟩ := hl c hc
        exact ⟨hin, j, by omega, hend'⟩

theorem EndsAt.lt_length (hclosed : ∀ a ∈ s, ∀ b, step a = some b → b ∈ s) {k : Nat} {a z : α}
    (h : EndsAt step k a z) (ha : a ∈ s) : k < s.length := by
  obtain ⟨l, hlen, hnodup, hl⟩ := h.exists_nodup hclosed ha
  have hle := (List.subperm_of_subset hnodup (fun b hb => (hl b hb).1)).length_le
  omega

/-- As many rounds as the chain has room for are enough. -/
theorem follow_stable (hclosed : ∀ a ∈ s, ∀ b, step a = some b → b ∈ s) {a : α} (ha : a ∈ s)
    {rounds : Nat} (hrounds : s.length ≤ rounds) :
    follow step rounds a = follow step s.length a := by
  ext z
  rw [follow_eq_some, follow_eq_some]
  constructor
  · rintro ⟨k, -, hend⟩
    exact ⟨k, hend.lt_length hclosed ha, hend⟩
  · rintro ⟨k, hk, hend⟩
    exact ⟨k, Nat.lt_of_lt_of_le hk hrounds, hend⟩

end Lib
end ZvolRescue
