import Mathlib.Data.List.Basic
import Mathlib.Logic.Function.Basic
import Mathlib.Logic.Relation

/-!
# Writers that append to one file

A message is written by several writes, each of which is appended at once.  Writers that run at
the same time may write between one another.  Where each waits until no other is inside a
message, whole messages come out, those of each writer in order (`Step.exclusive`).
-/

namespace ZvolRescue
namespace Lib
namespace Appends

/-- A writer: the message it is writing, with the writes that are left, and the messages to
come. -/
structure Writer (ρ α : Type*) where
  writing : Option (ρ × List (List α))
  left : List ρ

structure State (ι ρ α : Type*) where
  out : List α
  writers : ι → Writer ρ α

variable {ι ρ α : Type*} [DecidableEq ι]

/-- Before any of the messages is written. -/
def start (out : List α) (messages : ι → List ρ) : State ι ρ α :=
  { out, writers := fun i => { writing := none, left := messages i } }

/-- Writer `i` goes on as `w`. -/
def State.set (s : State ι ρ α) (i : ι) (w : Writer ρ α) (out : List α) : State ι ρ α :=
  { out, writers := Function.update s.writers i w }

/-- A writer begins a message, appends the next of its writes, or is done with it. -/
inductive Step (writes : ρ → List (List α)) (i : ι) : State ι ρ α → State ι ρ α → Prop
  | begin {s : State ι ρ α} {r : ρ} {left : List ρ} (h : s.writers i = ⟨none, r :: left⟩) :
    Step writes i s (s.set i ⟨some (r, writes r), left⟩ s.out)
  | append {s : State ι ρ α} {r : ρ} {b : List α} {rest : List (List α)} {left : List ρ}
    (h : s.writers i = ⟨some (r, b :: rest), left⟩) :
    Step writes i s (s.set i ⟨some (r, rest), left⟩ (s.out ++ b))
  | done {s : State ι ρ α} {r : ρ} {left : List ρ} (h : s.writers i = ⟨some (r, []), left⟩) :
    Step writes i s (s.set i ⟨none, left⟩ s.out)

/-- Inside a message: some of its writes are made, but not all. -/
def Inside (writes : ρ → List (List α)) (w : Writer ρ α) : Prop :=
  ∃ r made rest, w.writing = some (r, rest) ∧ writes r = made ++ rest ∧ made ≠ [] ∧ rest ≠ []

/-- No other writer is inside a message. -/
def Alone (writes : ρ → List (List α)) (i : ι) (s : State ι ρ α) : Prop :=
  ∀ j, j ≠ i → ¬ Inside writes (s.writers j)

/-- The writer does not append while another is inside a message. -/
def Waits (writes : ρ → List (List α)) (i : ι) (s : State ι ρ α) : Prop :=
  ∀ r b rest, (s.writers i).writing = some (r, b :: rest) → Alone writes i s

/-- Every message is written. -/
def Returned (s : State ι ρ α) : Prop := ∀ i, s.writers i = ⟨none, []⟩

/-- Steps of the writers, each of which is made where this holds. -/
def RunsWhile (writes : ρ → List (List α)) (P : ι → State ι ρ α → Prop) :
    State ι ρ α → State ι ρ α → Prop :=
  Relation.ReflTransGen (fun s s' => ∃ i, Step writes i s s' ∧ P i s)

/-- Steps of any writers in any order. -/
def Runs (writes : ρ → List (List α)) : State ι ρ α → State ι ρ α → Prop :=
  RunsWhile writes (fun _ _ => True)

/-- Each write is made while no other writer is inside a message. -/
def RunsAlone (writes : ρ → List (List α)) : State ι ρ α → State ι ρ α → Prop :=
  RunsWhile writes (Waits writes)

/-- The messages of one writer among those that were written. -/
def messagesOf (order : List (ι × ρ)) (i : ι) : List ρ :=
  (order.filter (fun m => m.1 = i)).map Prod.snd

/-- The messages that are not written yet, or not to the end. -/
def Writer.pending (w : Writer ρ α) : List ρ :=
  match w.writing with
  | some (r, _ :: _) => r :: w.left
  | _ => w.left

/-- What is written of the message that a writer is inside of, if one is. -/
inductive Part (writes : ρ → List (List α)) (s : State ι ρ α) : List α → Prop
  | outside (h : ∀ i, ¬ Inside writes (s.writers i)) : Part writes s []
  | inside {i : ι} {r : ρ} {made rest : List (List α)}
    (writing : (s.writers i).writing = some (r, rest)) (made_eq : writes r = made ++ rest)
    (begun : made ≠ []) (unfinished : rest ≠ []) (alone : Alone writes i s) :
    Part writes s made.flatten

/-- Whole messages are written, in this order, and part of one more. -/
structure Whole (writes : ρ → List (List α)) (out : List α) (messages : ι → List ρ)
    (order : List (ι × ρ)) (s : State ι ρ α) : Prop where
  out_eq : ∃ part, Part writes s part ∧
    s.out = out ++ order.flatMap (fun m => (writes m.2).flatten) ++ part
  messages_eq : ∀ i, messagesOf order i ++ (s.writers i).pending = messages i
  suffix : ∀ i r rest, (s.writers i).writing = some (r, rest) → ∃ made, writes r = made ++ rest

section Exclusive

variable {writes : ρ → List (List α)} {out : List α} {messages : ι → List ρ}
  {order : List (ι × ρ)} {s s' : State ι ρ α} {i : ι}

theorem messagesOf_append (order order' : List (ι × ρ)) (i : ι) :
    messagesOf (order ++ order') i = messagesOf order i ++ messagesOf order' i := by
  rw [messagesOf, List.filter_append, List.map_append]
  rfl

theorem State.set_self (s : State ι ρ α) (i : ι) (w : Writer ρ α) (o : List α) :
    (s.set i w o).writers i = w := by
  show Function.update s.writers i w i = w
  exact Function.update_self i w s.writers

theorem State.set_other (s : State ι ρ α) {i j : ι} (h : j ≠ i) (w : Writer ρ α) (o : List α) :
    (s.set i w o).writers j = s.writers j := by
  show Function.update s.writers i w j = s.writers j
  exact Function.update_of_ne h w s.writers

theorem State.set_set (s : State ι ρ α) (i : ι) (w w' : Writer ρ α) (o o' : List α) :
    (s.set i w o).set i w' o' = s.set i w' o' := by
  simp only [State.set, Function.update_idem]

/-- A writer makes the rest of its writes. -/
theorem RunsWhile.finish {P : ι → State ι ρ α → Prop} (hP : ∀ w o, P i (s.set i w o))
    (hs : P i s) {r : ρ} {rest : List (List α)} {left : List ρ}
    (h : s.writers i = ⟨some (r, rest), left⟩) :
    RunsWhile writes P s (s.set i ⟨none, left⟩ (s.out ++ rest.flatten)) := by
  induction rest generalizing s with
  | nil =>
    refine .single ⟨i, ?_, hs⟩
    rw [List.flatten_nil, List.append_nil]
    exact .done h
  | cons b rest ih =>
    have hstep : Step writes i s (s.set i ⟨some (r, rest), left⟩ (s.out ++ b)) := .append h
    refine .head ⟨i, hstep, hs⟩ ?_
    have hrest := ih (s := s.set i ⟨some (r, rest), left⟩ (s.out ++ b))
      (fun w o => by rw [s.set_set]; exact hP w o) (hP _ _) (s.set_self i _ _)
    rw [s.set_set] at hrest
    rw [List.flatten_cons, ← List.append_assoc]
    exact hrest

theorem not_inside_none (left : List ρ) : ¬ Inside writes (⟨none, left⟩ : Writer ρ α) := by
  intro ⟨r, made, rest, hwriting, _⟩
  cases hwriting

theorem start_whole : Whole writes out messages [] (start out messages) where
  out_eq := ⟨[], .outside (fun i => not_inside_none _), by simp [start]⟩
  messages_eq := fun i => rfl
  suffix := fun i r rest h => by cases h

/-- A lone writer that is not inside a message before or after leaves the part as it is. -/
theorem Part.set {part : List α} (h : Part writes s part) {w : Writer ρ α} (o : List α)
    (hbefore : ¬ Inside writes (s.writers i)) (hafter : ¬ Inside writes w) :
    Part writes (s.set i w o) part := by
  have hinside : ∀ j, j ≠ i → (s.set i w o).writers j = s.writers j :=
    fun j hj => s.set_other hj w o
  cases h with
  | outside hnone =>
    refine .outside (fun j => ?_)
    by_cases hj : j = i
    · rw [hj, s.set_self]
      exact hafter
    · rw [hinside j hj]
      exact hnone j
  | inside writing made_eq begun unfinished alone =>
    rename_i j r made rest
    have hj : j ≠ i := by
      intro hj
      rw [hj] at writing
      exact hbefore ⟨r, made, rest, writing, made_eq, begun, unfinished⟩
    refine .inside (by rw [hinside j hj]; exact writing) made_eq begun unfinished (fun k hk => ?_)
    by_cases hki : k = i
    · rw [hki, s.set_self]
      exact hafter
    · rw [hinside k hki]
      exact alone k hk

/-- The part is what the writer has made of its message, if no other is inside one. -/
theorem Part.eq_made {part : List α} (h : Part writes s part) (halone : Alone writes i s) {r : ρ}
    {made rest : List (List α)} (hwriting : (s.writers i).writing = some (r, rest))
    (hmade : writes r = made ++ rest) (hrest : rest ≠ []) : part = made.flatten := by
  cases h with
  | outside hnone =>
    have hbegun : made = [] := by
      by_contra hbegun
      exact hnone i ⟨r, made, rest, hwriting, hmade, hbegun, hrest⟩
    rw [hbegun]
    rfl
  | inside writing made_eq begun unfinished alone =>
    rename_i j r' made' rest'
    have hj : j = i := by
      by_contra hj
      exact halone j hj ⟨r', made', rest', writing, made_eq, begun, unfinished⟩
    rw [hj, hwriting] at writing
    cases writing
    rw [List.append_cancel_right (hmade.symm.trans made_eq)]

/-- Writer `i` goes on as `w`, and the others stay as they are. -/
theorem Whole.set (h : Whole writes out messages order s) {w : Writer ρ α} {o : List α}
    {order' : List (ι × ρ)}
    (hout : ∃ part, Part writes (s.set i w o) part ∧
      o = out ++ order'.flatMap (fun m => (writes m.2).flatten) ++ part)
    (hmessages : messagesOf order' i ++ w.pending = messagesOf order i ++ (s.writers i).pending)
    (hothers : ∀ j, j ≠ i → messagesOf order' j = messagesOf order j)
    (hsuffix : ∀ r rest, w.writing = some (r, rest) → ∃ made, writes r = made ++ rest) :
    Whole writes out messages order' (s.set i w o) where
  out_eq := hout
  messages_eq := by
    intro j
    by_cases hj : j = i
    · rw [hj, s.set_self, hmessages, h.messages_eq]
    · rw [s.set_other hj, hothers j hj, h.messages_eq]
  suffix := by
    intro j r rest hwriting
    by_cases hj : j = i
    · rw [hj, s.set_self] at hwriting
      exact hsuffix r rest hwriting
    · rw [s.set_other hj] at hwriting
      exact h.suffix j r rest hwriting

/-- A step that does not write while another writer is inside a message. -/
theorem Step.whole (hwrites : ∀ r, writes r ≠ []) (hstep : Step writes i s s')
    (hwaits : Waits writes i s) (h : Whole writes out messages order s) :
    ∃ order', Whole writes out messages order' s' := by
  obtain ⟨part, hpart, hout⟩ := h.out_eq
  cases hstep with
  | begin hw =>
    rename_i r left
    refine ⟨order, h.set ⟨part, hpart.set s.out ?_ ?_, hout⟩ ?_ (fun _ _ => rfl) ?_⟩
    · rw [hw]
      exact not_inside_none _
    · intro ⟨r', made, rest, hwriting, hmade, hbegun, _⟩
      cases hwriting
      exact hbegun (List.append_cancel_right (hmade.symm.trans (List.nil_append _).symm))
    · rw [hw, Writer.pending, Writer.pending]
      cases hr : writes r with
      | nil => exact absurd hr (hwrites r)
      | cons b rest => rfl
    · intro r' rest hwriting
      cases hwriting
      exact ⟨[], rfl⟩
  | append hw =>
    rename_i r b rest left
    have hwriting : (s.writers i).writing = some (r, b :: rest) := by rw [hw]
    have halone := hwaits r b rest hwriting
    obtain ⟨made, hmade⟩ := h.suffix i r _ hwriting
    have hmade' : writes r = (made ++ [b]) ++ rest := by rw [hmade, List.append_assoc]; rfl
    rw [hpart.eq_made halone hwriting hmade (List.cons_ne_nil _ _)] at hout
    have hothers : ∀ j, j ≠ i →
        ¬ Inside writes ((s.set i ⟨some (r, rest), left⟩ (s.out ++ b)).writers j) := by
      intro j hj
      rw [s.set_other hj]
      exact halone j hj
    have hsuffix : ∀ r' rest', some (r, rest) = some (r', rest') →
        ∃ made, writes r' = made ++ rest' := by
      intro r' rest' heq
      cases heq
      exact ⟨_, hmade'⟩
    by_cases hrest : rest = []
    · -- The message is whole.
      subst hrest
      refine ⟨order ++ [(i, r)], h.set ⟨[], .outside (fun j => ?_), ?_⟩ ?_ (fun j hj => ?_)
        hsuffix⟩
      · by_cases hj : j = i
        · rw [hj, s.set_self]
          intro ⟨r', made', rest', hwriting', _, _, hrest'⟩
          cases hwriting'
          exact hrest' rfl
        · exact hothers j hj
      · rw [hout, List.flatMap_append, List.flatMap_singleton, hmade']
        simp
      · rw [messagesOf_append, hw, List.append_assoc]
        simp [messagesOf, Writer.pending]
      · rw [messagesOf_append]
        simp [messagesOf, Ne.symm hj]
    · refine ⟨order, h.set ⟨(made ++ [b]).flatten, .inside (i := i) ?_ hmade' (by simp) hrest hothers,
        ?_⟩ ?_ (fun _ _ => rfl) hsuffix⟩
      · rw [s.set_self]
      · rw [hout, List.flatten_append, List.flatten_singleton]
        simp only [List.append_assoc]
      · rw [hw]
        obtain ⟨b', rest', rfl⟩ := List.exists_cons_of_ne_nil hrest
        rfl
  | done hw =>
    rename_i r left
    refine ⟨order, h.set ⟨part, hpart.set s.out ?_ (not_inside_none _), hout⟩ ?_ (fun _ _ => rfl)
      (fun r' rest hwriting => by cases hwriting)⟩
    · rw [hw]
      intro ⟨r', made, rest, hwriting, _, _, hrest⟩
      cases hwriting
      exact hrest rfl
    · rw [hw]
      rfl

/-- In a run of lone steps whole messages are written, and part of one more. -/
theorem RunsAlone.whole (hwrites : ∀ r, writes r ≠ [])
    (h : RunsAlone writes (start out messages) s) : ∃ order, Whole writes out messages order s := by
  induction h with
  | refl => exact ⟨[], start_whole⟩
  | tail _ hstep ih =>
    obtain ⟨order, hwhole⟩ := ih
    obtain ⟨i, hstep, hwaits⟩ := hstep
    exact hstep.whole hwrites hwaits hwhole

/-- When all have returned, every message is there once. -/
theorem Whole.returned (h : Whole writes out messages order s) (hreturned : Returned s) :
    s.out = out ++ order.flatMap (fun m => (writes m.2).flatten) ∧
      ∀ i, messagesOf order i = messages i := by
  obtain ⟨part, hpart, hout⟩ := h.out_eq
  refine ⟨?_, fun i => ?_⟩
  · cases hpart with
    | outside hnone => rw [hout, List.append_nil]
    | inside writing =>
      rw [hreturned] at writing
      cases writing
  · have hmessages := h.messages_eq i
    rw [hreturned i] at hmessages
    rw [← hmessages]
    exact (List.append_nil _).symm

end Exclusive

end Appends
end Lib
end ZvolRescue
