import Mathlib.Data.List.Nodup

/-!
# Walks of a graph

`dfs` walks the nodes below a node in preorder, so many levels deep.  A node whose key was met
before is refused, and so is one that lies too deep.  What a walk visits has one key each
(`dfs_nodup`), what is next to a visited node is visited or refused (`dfs_settled`), and where no
chain of nodes is too long everything below the start is visited (`dfs_complete`).
-/

namespace ZvolRescue
namespace Lib

variable {α κ : Type} [DecidableEq κ] (key : α → κ) (next : α → List α)

/-- What a walk has met so far. -/
structure Trip (α : Type) where
  visited : List α
  refused : List α

namespace Trip

def start : Trip α := { visited := [], refused := [] }

def visit (t : Trip α) (a : α) : Trip α := { t with visited := t.visited ++ [a] }

def refuse (t : Trip α) (a : α) : Trip α := { t with refused := t.refused ++ [a] }

/-- The keys of the nodes that were visited. -/
def keys (t : Trip α) : List κ := t.visited.map key

end Trip

/-- Walk from `a`, so many levels deep. -/
def dfs : (levels : Nat) → α → Trip α → Trip α
  | 0, a, t => t.refuse a
  | levels + 1, a, t =>
    if key a ∈ t.keys key then t.refuse a
    else (next a).foldl (fun t b => dfs levels b t) (t.visit a)

variable {key next}

theorem dfs_foldl (levels : Nat) {P : Trip α → Prop} (hstep : ∀ b t, P t → P (dfs key next levels b t))
    (l : List α) : ∀ t, P t → P (l.foldl (fun t b => dfs key next levels b t) t) := by
  induction l with
  | nil =>
    intro t ht
    exact ht
  | cons b l ih =>
    intro t ht
    exact ih _ (hstep b t ht)

/-- What every visit and every refusal keeps, a walk keeps. -/
theorem dfs_keeps {P : Trip α → Prop} (hvisit : ∀ a t, key a ∉ t.keys key → P t → P (t.visit a))
    (hrefuse : ∀ a t, P t → P (t.refuse a)) :
    ∀ levels a t, P t → P (dfs key next levels a t) := by
  intro levels
  induction levels with
  | zero =>
    intro a t ht
    exact hrefuse a t ht
  | succ levels ih =>
    intro a t ht
    rw [dfs]
    by_cases hmet : key a ∈ t.keys key
    · rw [if_pos hmet]
      exact hrefuse a t ht
    · rw [if_neg hmet]
      exact dfs_foldl levels (fun b t => ih b t) _ _ (hvisit a t hmet ht)

/-- What is met is not forgotten. -/
structure Trip.Grows (t t' : Trip α) : Prop where
  visited : ∀ a ∈ t.visited, a ∈ t'.visited
  refused : ∀ a ∈ t.refused, a ∈ t'.refused

theorem Trip.Grows.rfl {t : Trip α} : t.Grows t := ⟨fun _ h => h, fun _ h => h⟩

theorem Trip.Grows.trans {t t' t'' : Trip α} (h : t.Grows t') (h' : t'.Grows t'') : t.Grows t'' :=
  ⟨fun a ha => h'.visited a (h.visited a ha), fun a ha => h'.refused a (h.refused a ha)⟩

theorem Trip.grows_visit (t : Trip α) (a : α) : t.Grows (t.visit a) :=
  ⟨fun _ h => List.mem_append_left _ h, fun _ h => h⟩

theorem Trip.grows_refuse (t : Trip α) (a : α) : t.Grows (t.refuse a) :=
  ⟨fun _ h => h, fun _ h => List.mem_append_left _ h⟩

theorem dfs_grows (levels : Nat) (a : α) (t : Trip α) : t.Grows (dfs key next levels a t) := by
  apply dfs_keeps (P := fun t' => t.Grows t') _ _ levels a t Trip.Grows.rfl
  · intro b t' _ h
    exact h.trans (t'.grows_visit b)
  · intro b t' h
    exact h.trans (t'.grows_refuse b)

theorem dfs_foldl_grows (levels : Nat) (l : List α) (t : Trip α) :
    t.Grows (l.foldl (fun t b => dfs key next levels b t) t) :=
  dfs_foldl levels (P := fun t' => t.Grows t') (fun b t' h => h.trans (dfs_grows levels b t')) l t
    Trip.Grows.rfl

/-- The nodes that are visited have one key each. -/
theorem dfs_nodup (levels : Nat) (a : α) {t : Trip α} (ht : (t.keys key).Nodup) :
    ((dfs key next levels a t).keys key).Nodup := by
  apply dfs_keeps (P := fun t => (t.keys key).Nodup) _ _ levels a t ht
  · intro b t' hnew h
    rw [Trip.keys, Trip.visit, List.map_append, List.nodup_append]
    refine ⟨h, List.nodup_singleton _, ?_⟩
    intro k hk k' hk' heq
    rw [List.map_singleton, List.mem_singleton] at hk'
    rw [heq, hk'] at hk
    exact hnew hk
  · intro b t' h
    exact h

/-! ## What is next to a visited node -/

/-- The node was visited, under this key at least, or refused. -/
def Trip.Met (key : α → κ) (t : Trip α) (a : α) : Prop := key a ∈ t.keys key ∨ a ∈ t.refused

omit [DecidableEq κ] in
theorem Trip.Grows.keys {t t' : Trip α} (h : t.Grows t') {k : κ} (hk : k ∈ t.keys key) :
    k ∈ t'.keys key := by
  obtain ⟨b, hb, hkb⟩ := List.mem_map.mp hk
  exact List.mem_map.mpr ⟨b, h.visited b hb, hkb⟩

omit [DecidableEq κ] in
theorem Trip.Grows.met {t t' : Trip α} (h : t.Grows t') {a : α} (ha : t.Met key a) :
    t'.Met key a := by
  rcases ha with hkey | hrefused
  · exact Or.inl (h.keys hkey)
  · exact Or.inr (h.refused a hrefused)

theorem dfs_met (levels : Nat) (a : α) (t : Trip α) : (dfs key next levels a t).Met key a := by
  cases levels with
  | zero => exact Or.inr (List.mem_append_right _ (List.mem_singleton_self a))
  | succ levels =>
    rw [dfs]
    by_cases hmet : key a ∈ t.keys key
    · rw [if_pos hmet]
      exact Or.inr (List.mem_append_right _ (List.mem_singleton_self a))
    · rw [if_neg hmet]
      have hvisited : (t.visit a).Met key a :=
        Or.inl (List.mem_map.mpr ⟨a, List.mem_append_right _ (List.mem_singleton_self a), rfl⟩)
      exact dfs_foldl levels (P := fun t' => t'.Met key a)
        (fun b t' h => (dfs_grows levels b t').met h) _ _ hvisited

/-- A walk of several nodes meets each of them. -/
theorem dfs_foldl_met (levels : Nat) (l : List α) :
    ∀ (t : Trip α), ∀ b ∈ l, (l.foldl (fun t b => dfs key next levels b t) t).Met key b := by
  induction l with
  | nil =>
    intro t b hb
    cases hb
  | cons c l ih =>
    intro t b hb
    rw [List.foldl_cons]
    rcases List.mem_cons.mp hb with rfl | hb
    · exact dfs_foldl levels (P := fun t' => t'.Met key b)
        (fun c t' h => (dfs_grows levels c t').met h) _ _ (dfs_met levels b t)
    · exact ih _ b hb

/-- All that is next to the visited nodes, but for those of `old`, was met. -/
def Trip.Settled (key : α → κ) (next : α → List α) (old : List α) (t : Trip α) : Prop :=
  ∀ v ∈ t.visited, v ∉ old → ∀ b ∈ next v, t.Met key b

theorem dfs_settled : ∀ (levels : Nat) (a : α) (t : Trip α) (old : List α),
    t.Settled key next old → (dfs key next levels a t).Settled key next old := by
  intro levels
  induction levels with
  | zero =>
    intro a t old ht v hv hold b hb
    exact (t.grows_refuse a).met (ht v hv hold b hb)
  | succ levels ih =>
    intro a t old ht
    rw [dfs]
    by_cases hmet : key a ∈ t.keys key
    · rw [if_pos hmet]
      intro v hv hold b hb
      exact (t.grows_refuse a).met (ht v hv hold b hb)
    · rw [if_neg hmet]
      -- While its children are walked, `a` is the one node that is not settled.
      have hvisit : (t.visit a).Settled key next (a :: old) := by
        intro v hv hold b hb
        rw [List.mem_cons, not_or] at hold
        rcases List.mem_append.mp hv with hv | hv
        · exact (t.grows_visit a).met (ht v hv hold.2 b hb)
        · exact absurd (List.mem_singleton.mp hv) hold.1
      have hloop := dfs_foldl levels (P := fun t' => t'.Settled key next (a :: old))
        (fun b t' h => ih b t' _ h) (next a) _ hvisit
      intro v hv hold b hb
      by_cases hva : v = a
      · rw [hva] at hb
        exact dfs_foldl_met levels (next a) _ b hb
      · exact hloop v hv (by simp [hva, hold]) b hb

/-! ## What a walk reaches -/

/-- A chain of `n` steps from one key to another. -/
inductive Chain (key : α → κ) (next : α → List α) : Nat → κ → κ → Prop where
  | zero (k : κ) : Chain key next 0 k k
  | step {n : Nat} {k l : κ} {a b : α} (h : Chain key next n k l) (ha : key a = l)
      (hb : b ∈ next a) : Chain key next (n + 1) k (key b)

omit [DecidableEq κ] in
theorem Chain.cons {n : Nat} {a b : α} {l : κ} (hb : b ∈ next a)
    (h : Chain key next n (key b) l) : Chain key next (n + 1) (key a) l := by
  generalize hk : key b = k at h
  induction h with
  | zero k =>
    rw [← hk]
    exact Chain.step (Chain.zero _) rfl hb
  | step _ hc hd ih => exact Chain.step (ih hk) hc hd

/-- What holds of the start and goes on to what is next, with the number of steps, holds of
whatever is visited. -/
theorem dfs_placed {P : Nat → α → Prop} (hnext : ∀ n a b, P n a → b ∈ next a → P (n + 1) b) :
    ∀ (levels : Nat) (a : α) (t : Trip α) (n : Nat), P n a →
      ∀ v ∈ (dfs key next levels a t).visited, v ∈ t.visited ∨ ∃ m < n + levels, P m v := by
  intro levels
  induction levels with
  | zero =>
    intro a t n _ v hv
    exact Or.inl hv
  | succ levels ih =>
    intro a t n ha v hv
    by_cases hmet : key a ∈ t.keys key
    · rw [dfs, if_pos hmet] at hv
      exact Or.inl hv
    · rw [dfs, if_neg hmet] at hv
      have hloop : ∀ (l : List α), (∀ b ∈ l, b ∈ next a) → ∀ t' : Trip α,
          ∀ v ∈ (l.foldl (fun t b => dfs key next levels b t) t').visited, v ∈ t'.visited ∨
            ∃ m < n + (levels + 1), P m v := by
        intro l
        induction l with
        | nil =>
          intro _ t' v hv
          exact Or.inl hv
        | cons c l ihl =>
          intro hl t' v hv
          rcases ihl (fun b hb => hl b (List.mem_cons_of_mem _ hb)) _ v hv with hold | hnew
          · rcases ih c t' (n + 1) (hnext n a c ha (hl c List.mem_cons_self)) v hold with
              hold | ⟨m, hm, hplace⟩
            · exact Or.inl hold
            · exact Or.inr ⟨m, by omega, hplace⟩
          · exact Or.inr hnew
      rcases hloop (next a) (fun _ hb => hb) _ v hv with hold | hnew
      · rcases List.mem_append.mp hold with hold | hself
        · exact Or.inl hold
        · rw [List.mem_singleton.mp hself]
          exact Or.inr ⟨n, by omega, ha⟩
      · exact Or.inr hnew

/-- Whatever is visited lies at the end of a chain that is short enough. -/
theorem dfs_chain (levels : Nat) (a : α) (t : Trip α) :
    ∀ v ∈ (dfs key next levels a t).visited, v ∈ t.visited ∨
      ∃ n < levels, Chain key next n (key a) (key v) := by
  intro v hv
  rcases dfs_placed (P := fun n v => Chain key next n (key a) (key v))
    (fun _ _ _ h hb => h.step rfl hb) levels a t 0 (Chain.zero _) v hv with hold | ⟨n, hn, h⟩
  · exact Or.inl hold
  · exact Or.inr ⟨n, by omega, h⟩

/-! ## Trails -/

/-- Steps that meet no key twice, with the keys before the last one, the latest first. -/
inductive Trail (key : α → κ) (next : α → List α) (start : κ) : List κ → κ → Prop where
  | zero : Trail key next start [] start
  | step {ks : List κ} {k : κ} {a b : α} (h : Trail key next start ks k) (ha : key a = k)
      (hb : b ∈ next a) (hnew : key b ∉ k :: ks) : Trail key next start (k :: ks) (key b)

theorem dfs_of_met {a : α} {t : Trip α} (h : key a ∈ t.keys key) (levels : Nat) :
    dfs key next levels a t = t.refuse a := by
  cases levels with
  | zero => rfl
  | succ levels => rw [dfs, if_pos h]

/-- What is refused was visited at some place, or ends a trail as long as the walk is deep. -/
theorem dfs_refused_trail {start : κ} : ∀ (levels : Nat) (a : α) (t : Trip α) (ks : List κ),
    Trail key next start ks (key a) → (∀ k ∈ ks, k ∈ t.keys key) →
      ∀ v ∈ (dfs key next levels a t).refused, v ∈ t.refused ∨
        key v ∈ (dfs key next levels a t).keys key ∨
        ∃ ks', ks'.length = ks.length + levels ∧ Trail key next start ks' (key v) := by
  intro levels
  induction levels with
  | zero =>
    intro a t ks htrail hks v hv
    rcases List.mem_append.mp hv with hold | hself
    · exact Or.inl hold
    · rw [List.mem_singleton.mp hself]
      exact Or.inr (Or.inr ⟨ks, rfl, htrail⟩)
  | succ levels ih =>
    intro a t ks htrail hks v hv
    by_cases hmet : key a ∈ t.keys key
    · rw [dfs_of_met hmet] at hv ⊢
      rcases List.mem_append.mp hv with hold | hself
      · exact Or.inl hold
      · rw [List.mem_singleton.mp hself]
        exact Or.inr (Or.inl hmet)
    · rw [dfs, if_neg hmet] at hv ⊢
      -- Everything before a child on its trail was visited, so a child that was not is new.
      have hloop : ∀ (l : List α), (∀ b ∈ l, b ∈ next a) → ∀ t' : Trip α,
          (∀ k ∈ key a :: ks, k ∈ t'.keys key) →
          ∀ v ∈ (l.foldl (fun t b => dfs key next levels b t) t').refused, v ∈ t'.refused ∨
            key v ∈ (l.foldl (fun t b => dfs key next levels b t) t').keys key ∨
            ∃ ks', ks'.length = ks.length + (levels + 1) ∧ Trail key next start ks' (key v) := by
        intro l
        induction l with
        | nil =>
          intro _ t' _ v hv
          exact Or.inl hv
        | cons c l ihl =>
          intro hl t' hstack v hv
          have hgrown : t'.Grows (dfs key next levels c t') := dfs_grows levels c t'
          rcases ihl (fun b hb => hl b (List.mem_cons_of_mem _ hb)) _
            (fun k hk => hgrown.keys (hstack k hk)) v hv with hold | hnew
          · by_cases hc : key c ∈ t'.keys key
            · rw [dfs_of_met hc] at hold
              rcases List.mem_append.mp hold with hold | hself
              · exact Or.inl hold
              · rw [List.mem_singleton.mp hself]
                exact Or.inr (Or.inl ((dfs_foldl_grows levels (c :: l) t').keys hc))
            · have hstep : Trail key next start (key a :: ks) (key c) :=
                htrail.step rfl (hl c List.mem_cons_self) (fun hin => hc (hstack _ hin))
              rcases ih c t' _ hstep hstack v hold with hold | hkey | ⟨ks', hlength, hend⟩
              · exact Or.inl hold
              · exact Or.inr (Or.inl ((dfs_foldl_grows levels l _).keys hkey))
              · rw [List.length_cons, Nat.add_assoc, Nat.add_comm 1] at hlength
                exact Or.inr (Or.inr ⟨ks', hlength, hend⟩)
          · exact Or.inr hnew
      refine hloop (next a) (fun _ hb => hb) (t.visit a) ?_ v hv
      intro k hk
      rcases List.mem_cons.mp hk with rfl | hk
      · exact List.mem_map.mpr ⟨a, List.mem_append_right _ (List.mem_singleton_self a), rfl⟩
      · exact (t.grows_visit a).keys (hks k hk)

/-- Everything below the start is visited, but for what lies at or below the end of a trail as
long as the walk is deep. -/
theorem dfs_covers {levels : Nat} {a : α}
    (hkey : ∀ a b, key a = key b → (next a).map key = (next b).map key) {n : Nat} {k : κ}
    (hchain : Chain key next n (key a) k) :
    k ∈ (dfs key next levels a Trip.start).keys key ∨ ∃ ks deep m,
      ks.length = levels ∧ Trail key next (key a) ks deep ∧ Chain key next m deep k := by
  have hmet : ∀ b, (dfs key next levels a Trip.start).Met key b →
      key b ∈ (dfs key next levels a Trip.start).keys key ∨ ∃ ks deep m,
        ks.length = levels ∧ Trail key next (key a) ks deep ∧ Chain key next m deep (key b) := by
    intro b hb
    rcases hb with hvisited | hrefused
    · exact Or.inl hvisited
    · rcases dfs_refused_trail levels a Trip.start [] Trail.zero (fun _ hk => by cases hk) b
        hrefused with hold | hvisited | ⟨ks, hlength, htrail⟩
      · cases hold
      · exact Or.inl hvisited
      · rw [List.length_nil, Nat.zero_add] at hlength
        exact Or.inr ⟨ks, key b, 0, hlength, htrail, Chain.zero _⟩
  have hsettled : (dfs key next levels a Trip.start).Settled key next [] :=
    dfs_settled levels a Trip.start [] (fun v hv => by cases hv)
  generalize hstart : key a = k₀ at hchain
  induction hchain with
  | zero =>
    rw [← hstart]
    exact hmet a (dfs_met levels a _)
  | @step n k l c d h hc hd ih =>
    rcases ih hstart with hvisited | ⟨ks, deep, m, hlength, htrail, hbelow⟩
    · obtain ⟨v, hv, hkv⟩ := List.mem_map.mp hvisited
      have hnext : key d ∈ (next v).map key := by
        rw [hkey v c (hkv.trans hc.symm)]
        exact List.mem_map_of_mem hd
      obtain ⟨d', hd', hkd'⟩ := List.mem_map.mp hnext
      rw [← hkd', ← hstart]
      exact hmet d' (hsettled v hv List.not_mem_nil d' hd')
    · exact Or.inr ⟨ks, deep, m + 1, hlength, htrail, hbelow.step hc hd⟩

omit [DecidableEq κ] in
theorem Trail.chain {start k : κ} {ks : List κ} (h : Trail key next start ks k) :
    Chain key next ks.length start k := by
  induction h with
  | zero => exact Chain.zero _
  | step _ ha hb _ ih => exact ih.step ha hb

/-- Where no chain is too long, everything below the start is visited. -/
theorem dfs_complete {levels : Nat} {a : α}
    (hkey : ∀ a b, key a = key b → (next a).map key = (next b).map key)
    (hshort : ∀ k, ¬ Chain key next levels (key a) k) {n : Nat} {k : κ}
    (hchain : Chain key next n (key a) k) : k ∈ (dfs key next levels a Trip.start).keys key := by
  rcases dfs_covers hkey hchain with hvisited | ⟨ks, deep, m, hlength, htrail, -⟩
  · exact hvisited
  · have hlong := htrail.chain
    rw [hlength] at hlong
    exact absurd hlong (hshort deep)

end Lib
end ZvolRescue
