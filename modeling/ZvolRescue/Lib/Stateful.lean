import Mathlib.Control.Basic

/-!
# Stateful computations and what they keep

`Keeps I m Q` says that `m`, run where the invariant `I` holds, yields a result with `Q` and
leaves `I` true.  `Refines I m v` is the case of one result: under `I`, `m` yields what the
computation without state yields.  A program written over an arbitrary monad is related to
its pure reading by one `Refines` rule for each way it is put together.
-/

namespace ZvolRescue
namespace Lib

variable {σ α β : Type} {I : σ → Prop}

theorem bind_run (m : StateM σ α) (k : α → StateM σ β) (s : σ) :
    (m >>= k) s = k (m s).1 (m s).2 := rfl

/-- Run under `I`, `m` yields a result with `Q` and leaves `I` true. -/
def Keeps (I : σ → Prop) (m : StateM σ α) (Q : α → Prop) : Prop :=
  ∀ s, I s → Q (m s).1 ∧ I (m s).2

namespace Keeps

theorem pure {Q : α → Prop} {a : α} (h : Q a) : Keeps I (Pure.pure a) Q := by
  intro s hs
  exact ⟨h, hs⟩

theorem bind {m : StateM σ α} {k : α → StateM σ β} {P : α → Prop} {Q : β → Prop}
    (hm : Keeps I m P) (hk : ∀ a, P a → Keeps I (k a) Q) : Keeps I (m >>= k) Q := by
  intro s hs
  have h := hm s hs
  exact hk (m s).1 h.1 (m s).2 h.2

theorem mono {m : StateM σ α} {P Q : α → Prop} (hm : Keeps I m P) (hPQ : ∀ a, P a → Q a) :
    Keeps I m Q := by
  intro s hs
  have h := hm s hs
  exact ⟨hPQ _ h.1, h.2⟩

/-- Without an invariant there is nothing to show of a result that does not matter. -/
theorem anything {m : StateM σ α} : Keeps (fun _ => True) m (fun _ => True) := by
  intro s _
  exact ⟨True.intro, True.intro⟩

theorem map {m : StateM σ α} {f : α → β} {P : α → Prop} {Q : β → Prop} (hm : Keeps I m P)
    (hf : ∀ a, P a → Q (f a)) : Keeps I (f <$> m) Q := by
  intro s hs
  have h := hm s hs
  exact ⟨hf _ h.1, h.2⟩

end Keeps

/-! ## Refinement of a pure computation -/

/-- Under `I`, `m` yields what `v` is, and leaves `I` true. -/
def Refines (I : σ → Prop) (m : StateM σ α) (v : Id α) : Prop := Keeps I m (fun a => a = v.run)

namespace Refines

theorem run {m : StateM σ α} {v : Id α} (h : Refines I m v) {s : σ} (hs : I s) :
    (m s).1 = v.run := (h s hs).1

theorem pure (a : α) : Refines I (Pure.pure a) (Pure.pure a) := Keeps.pure rfl

theorem bind {m : StateM σ α} {v : Id α} {k : α → StateM σ β} {w : α → Id β}
    (hm : Refines I m v) (hk : ∀ a, Refines I (k a) (w a)) : Refines I (m >>= k) (v >>= w) := by
  apply Keeps.bind hm
  intro a ha
  subst ha
  exact hk _

end Refines

/-! ## Relations between two monads -/

/-- A relation between the computations of two monads that holds of what is put together where
it holds of the parts. -/
structure Related (m n : Type → Type) [Monad m] [Monad n] where
  lawful : LawfulMonad m
  lawful' : LawfulMonad n
  rel : {α : Type} → m α → n α → Prop
  pure : ∀ {α : Type} (a : α), rel (Pure.pure a) (Pure.pure a)
  bind : ∀ {α β : Type} {x : m α} {y : n α} {f : α → m β} {g : α → n β}, rel x y →
    (∀ a, rel (f a) (g a)) → rel (x >>= f) (y >>= g)

namespace Related

variable {m n : Type → Type} [Monad m] [Monad n] (R : Related m n)

theorem map {x : m α} {y : n α} (f : α → β) (h : R.rel x y) : R.rel (f <$> x) (f <$> y) := by
  have := R.lawful
  have := R.lawful'
  rw [map_eq_pure_bind, map_eq_pure_bind]
  exact R.bind h (fun a => R.pure _)

theorem mapM {f : α → m β} {g : α → n β} (h : ∀ a, R.rel (f a) (g a)) :
    ∀ l : List α, R.rel (l.mapM f) (l.mapM g) := by
  have := R.lawful
  have := R.lawful'
  intro l
  induction l with
  | nil =>
    rw [List.mapM_nil, List.mapM_nil]
    exact R.pure []
  | cons a l ih =>
    rw [List.mapM_cons, List.mapM_cons]
    apply R.bind (h a)
    intro b
    apply R.bind ih
    intro bs
    exact R.pure _

end Related

/-- Refinement is such a relation. -/
def Refines.related (I : σ → Prop) : Related (StateM σ) Id :=
  { lawful := inferInstance, lawful' := inferInstance, rel := Refines I, pure := Refines.pure
    bind := Refines.bind }

/-- So is it that both are the same computation, which keeps an invariant. -/
def Keeps.related (I : σ → Prop) : Related (StateM σ) (StateM σ) :=
  { lawful := inferInstance, lawful' := inferInstance
    rel := fun x y => x = y ∧ Keeps I x (fun _ => True)
    pure := fun _ => ⟨rfl, Keeps.pure True.intro⟩
    bind := fun h hk => by
      obtain ⟨rfl, hm⟩ := h
      exact ⟨bind_congr (fun a => (hk a).1), Keeps.bind hm (fun a _ => (hk a).2)⟩ }

/-- What `x` does to a state is what `y` does to what `f` leaves of it. -/
def Follows {τ : Type} (f : σ → τ) (x : StateM σ α) (y : StateM τ α) : Prop :=
  ∀ s, (x s).1 = (y (f s)).1 ∧ f (x s).2 = (y (f s)).2

/-- So is it that one computation follows another. -/
def Follows.related {τ : Type} (f : σ → τ) : Related (StateM σ) (StateM τ) :=
  { lawful := inferInstance, lawful' := inferInstance
    rel := Follows f
    pure := fun _ _ => ⟨rfl, rfl⟩
    bind := fun h hk s => by
      obtain ⟨hval, hstate⟩ := h s
      rw [bind_run, bind_run, ← hval, ← hstate]
      exact hk _ _ }

end Lib
end ZvolRescue
