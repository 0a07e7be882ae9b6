import ZvolRescue.Lib.Stateful

/-!
# Files that are opened for writing

What a path names is a file, known by its device and inode.  A program that opens paths for
writing never opens a file it has to spare, as long as none of the paths named it when the
program began: the files it creates are new ones, and no operation makes a path name a file
that was there before.
-/

namespace ZvolRescue
namespace Lib

/-! ## File systems -/

/-- A file, by device and inode. -/
abbrev FileId := Nat × Nat

structure FileMeta where
  dev : Nat
  ino : Nat
  /-- The device that a block device is. -/
  rdev : Nat
  blockDevice : Bool
  deriving DecidableEq, Repr

def FileMeta.id (m : FileMeta) : FileId := (m.dev, m.ino)

inductive StatError where
  | notFound
  | other (what : String)
  deriving DecidableEq, Repr

/-- How a file is opened for writing. -/
inductive OpenMode where
  /-- Created where it is not there, emptied where it is. -/
  | create
  /-- Created where it is not there, added to where it is. -/
  | append
  /-- Only where it is there. -/
  | existing
  deriving DecidableEq, Repr

/-- A file system, by its operations on a state. -/
structure FileSystem (φ : Type) where
  stat : String → φ → Except StatError FileMeta
  openFor : OpenMode → String → φ → Option (FileId × φ)
  createDirAll : String → φ → Option φ
  remove : String → φ → φ

variable {φ : Type}

/-- A path names a file. -/
def FileSystem.Names (fs : FileSystem φ) (s : φ) (p : String) (i : FileId) : Prop :=
  ∃ m, fs.stat p s = .ok m ∧ m.id = i

/-- What is relied on about the files that are in use all the time: they are opened by what
names them, no other file gets their number, and only removing a path changes what names
them. -/
structure Lawful (fs : FileSystem φ) (used : FileId → Prop) : Prop where
  open_named : ∀ mode p s i s' j, fs.openFor mode p s = some (i, s') → fs.Names s p j → i = j
  open_new : ∀ mode p s i s', fs.openFor mode p s = some (i, s') → (∀ j, ¬ fs.Names s p j) → ¬ used i
  open_names : ∀ mode p s i s', fs.openFor mode p s = some (i, s') → ∀ q j, used j →
    (fs.Names s' q j ↔ fs.Names s q j)
  dir_names : ∀ p s s', fs.createDirAll p s = some s' → ∀ q j, used j →
    (fs.Names s' q j ↔ fs.Names s q j)
  remove_names : ∀ p s q j, used j → fs.Names (fs.remove p s) q j → fs.Names s q j

theorem Lawful.mono {fs : FileSystem φ} {used used' : FileId → Prop} (h : Lawful fs used)
    (hle : ∀ i, used' i → used i) : Lawful fs used' where
  open_named := h.open_named
  open_new := fun mode p s i s' hopen hnew hi => h.open_new mode p s i s' hopen hnew (hle i hi)
  open_names := fun mode p s i s' hopen q j hj => h.open_names mode p s i s' hopen q j (hle j hj)
  dir_names := fun p s s' hdir q j hj => h.dir_names p s s' hdir q j (hle j hj)
  remove_names := fun p s q j hj => h.remove_names p s q j (hle j hj)

/-! ## Programs -/

/-- A file system in use, and the files that were opened for writing so far. -/
structure World (φ : Type) where
  state : φ
  opened : List FileId

namespace FileSystem

variable (fs : FileSystem φ)

/-- Open for writing; whether that succeeded. -/
def openFile (mode : OpenMode) (p : String) : StateM (World φ) Bool := fun w =>
  match fs.openFor mode p w.state with
  | none => (false, w)
  | some (i, s) => (true, { state := s, opened := w.opened ++ [i] })

def makeDir (p : String) : StateM (World φ) Bool := fun w =>
  match fs.createDirAll p w.state with
  | none => (false, w)
  | some s => (true, { w with state := s })

def removeFile (p : String) : StateM (World φ) Unit := fun w =>
  ((), { w with state := fs.remove p w.state })

end FileSystem

/-! ## Files that are spared -/

section Spares

variable {fs : FileSystem φ} {used : FileId → Prop} {s₀ : φ}

/-- None of the files is opened, and no path names one that did not at first. -/
structure Spares (fs : FileSystem φ) (used : FileId → Prop) (s₀ : φ) (w : World φ) : Prop where
  opened : ∀ i ∈ w.opened, ¬ used i
  names : ∀ q j, used j → fs.Names w.state q j → fs.Names s₀ q j

/-- None of the files is opened, and the same paths name them as at first. -/
structure Untouched (fs : FileSystem φ) (used : FileId → Prop) (s₀ : φ) (w : World φ) : Prop where
  opened : ∀ i ∈ w.opened, ¬ used i
  names : ∀ q j, used j → (fs.Names w.state q j ↔ fs.Names s₀ q j)

theorem Untouched.spares {w : World φ} (h : Untouched fs used s₀ w) : Spares fs used s₀ w :=
  ⟨h.opened, fun q j hj hq => (h.names q j hj).mp hq⟩

theorem untouched_start (fs : FileSystem φ) (used : FileId → Prop) (s₀ : φ) :
    Untouched fs used s₀ { state := s₀, opened := [] } where
  opened := fun _ hi => by cases hi
  names := fun _ _ _ => Iff.rfl

/-- A path that names none of the files. -/
def Clear (fs : FileSystem φ) (used : FileId → Prop) (s₀ : φ) (p : String) : Prop :=
  ∀ j, used j → ¬ fs.Names s₀ p j

/-- What is opened at such a path is another file. -/
theorem Lawful.not_used (h : Lawful fs used) {mode : OpenMode} {p : String} {w : World φ}
    (hw : Spares fs used s₀ w) (hp : Clear fs used s₀ p) {i : FileId} {s : φ}
    (hopen : fs.openFor mode p w.state = some (i, s)) : ¬ used i := by
  intro hused
  by_cases hnamed : ∃ j, fs.Names w.state p j
  · obtain ⟨j, hj⟩ := hnamed
    have hij := h.open_named mode p w.state i s j hopen hj
    exact hp i hused (hw.names p i hused (hij ▸ hj))
  · exact h.open_new mode p w.state i s hopen (not_exists.mp hnamed) hused

theorem Lawful.openFile_spares (h : Lawful fs used) (mode : OpenMode) {p : String}
    (hp : Clear fs used s₀ p) :
    Keeps (Spares fs used s₀) (fs.openFile mode p) (fun _ => True) := by
  intro w hw
  refine ⟨True.intro, ?_⟩
  rw [FileSystem.openFile]
  cases hopen : fs.openFor mode p w.state with
  | none => exact hw
  | some result =>
    obtain ⟨i, s⟩ := result
    refine ⟨?_, ?_⟩
    · intro k hk
      rcases List.mem_append.mp hk with hk | hk
      · exact hw.opened k hk
      · rw [List.mem_singleton.mp hk]
        exact h.not_used hw hp hopen
    · intro q j hj hq
      exact hw.names q j hj ((h.open_names mode p w.state i s hopen q j hj).mp hq)

theorem Lawful.openFile_untouched (h : Lawful fs used) (mode : OpenMode) {p : String}
    (hp : Clear fs used s₀ p) :
    Keeps (Untouched fs used s₀) (fs.openFile mode p) (fun _ => True) := by
  intro w hw
  refine ⟨True.intro, ?_⟩
  have hspares := (h.openFile_spares mode hp w hw.spares).2
  refine ⟨hspares.opened, ?_⟩
  rw [FileSystem.openFile]
  cases hopen : fs.openFor mode p w.state with
  | none => exact hw.names
  | some result =>
    obtain ⟨i, s⟩ := result
    intro q j hj
    exact (h.open_names mode p w.state i s hopen q j hj).trans (hw.names q j hj)

theorem Lawful.makeDir_spares (h : Lawful fs used) (p : String) :
    Keeps (Spares fs used s₀) (fs.makeDir p) (fun _ => True) := by
  intro w hw
  refine ⟨True.intro, ?_⟩
  rw [FileSystem.makeDir]
  cases hdir : fs.createDirAll p w.state with
  | none => exact hw
  | some s =>
    exact ⟨hw.opened, fun q j hj hq => hw.names q j hj
      ((h.dir_names p w.state s hdir q j hj).mp hq)⟩

theorem Lawful.removeFile_spares (h : Lawful fs used) (p : String) :
    Keeps (Spares fs used s₀) (fs.removeFile p) (fun _ => True) := by
  intro w hw
  exact ⟨True.intro, hw.opened, fun q j hj hq => hw.names q j hj (h.remove_names p w.state q j hj hq)⟩

end Spares

/-! ## A table of names -/

/-- Names of files of one device, numbered in the order they were made. -/
structure NameTable where
  names : List (String × Nat)
  next : Nat

/-- The files a table is given at first are numbered below `n`. -/
def tableFiles (n : Nat) : FileSystem { t : NameTable // n ≤ t.next } where
  stat p t :=
    match t.1.names.lookup p with
    | none => .error .notFound
    | some i => .ok { dev := 0, ino := i, rdev := 0, blockDevice := false }
  openFor mode p t :=
    match t.1.names.lookup p with
    | some i => some ((0, i), t)
    | none =>
      if mode = .existing then none
      else some ((0, t.1.next), ⟨{ names := (p, t.1.next) :: t.1.names, next := t.1.next + 1 },
        Nat.le_succ_of_le t.2⟩)
  createDirAll _ t := some t
  remove p t := ⟨{ t.1 with names := t.1.names.filter (fun e => e.1 ≠ p) }, t.2⟩

theorem tableFiles_names {n : Nat} {t : { t : NameTable // n ≤ t.next }} {p : String} {i : FileId} :
    (tableFiles n).Names t p i ↔ ∃ k, t.1.names.lookup p = some k ∧ i = (0, k) := by
  rw [FileSystem.Names]
  cases hp : t.1.names.lookup p with
  | none => simp [tableFiles, hp]
  | some k => simp [tableFiles, hp, FileMeta.id, eq_comm]

theorem lookup_filter (l : List (String × Nat)) (p q : String) :
    (l.filter (fun e => e.1 ≠ p)).lookup q = if q = p then none else l.lookup q := by
  induction l with
  | nil => simp
  | cons e l ih =>
    obtain ⟨r, j⟩ := e
    by_cases hr : r = p
    · rw [List.filter_cons_of_neg (by simpa using hr), ih, List.lookup_cons]
      by_cases hq : q = p
      · rw [if_pos hq, if_pos hq]
      · have hne : (q == r) = false := by simpa [hr] using hq
        rw [if_neg hq, if_neg hq, hne]
    · rw [List.filter_cons_of_pos (by simpa using hr), List.lookup_cons, List.lookup_cons, ih]
      by_cases hq : q = p
      · have hne : (q == r) = false := by simpa [hq] using Ne.symm hr
        rw [if_pos hq, if_pos hq, hne]
      · rw [if_neg hq, if_neg hq]

theorem tableFiles_lawful (n : Nat) : Lawful (tableFiles n) (fun i => i.2 < n) := by
  have hopen : ∀ mode p t i t', (tableFiles n).openFor mode p t = some (i, t') →
      (∃ k, t.1.names.lookup p = some k ∧ i = (0, k) ∧ t' = t) ∨
        t.1.names.lookup p = none ∧ i = (0, t.1.next) ∧
          t'.1.names = (p, t.1.next) :: t.1.names := by
    intro mode p t i t' h
    simp only [tableFiles] at h
    cases hp : t.1.names.lookup p with
    | some k =>
      simp only [hp, Option.some.injEq, Prod.mk.injEq] at h
      exact Or.inl ⟨k, rfl, h.1.symm, h.2.symm⟩
    | none =>
      simp only [hp] at h
      by_cases hmode : mode = .existing
      · rw [if_pos hmode] at h
        cases h
      · rw [if_neg hmode] at h
        cases h
        exact Or.inr ⟨rfl, rfl, rfl⟩
  refine
    { open_named := ?_
      open_new := ?_
      open_names := ?_
      dir_names := ?_
      remove_names := ?_ }
  · intro mode p t i t' j h hj
    obtain ⟨k, hk, rfl⟩ := tableFiles_names.mp hj
    rcases hopen mode p t i t' h with ⟨k', hk', rfl, -⟩ | ⟨hnone, -, -⟩
    · rw [hk] at hk'
      cases hk'
      rfl
    · rw [hk] at hnone
      cases hnone
  · intro mode p t i t' h hnew
    rcases hopen mode p t i t' h with ⟨k, hk, -, -⟩ | ⟨-, rfl, -⟩
    · exact absurd (tableFiles_names.mpr ⟨k, hk, rfl⟩) (hnew (0, k))
    · exact Nat.not_lt.mpr t.2
  · intro mode p t i t' h q j hj
    rw [tableFiles_names, tableFiles_names]
    rcases hopen mode p t i t' h with ⟨-, -, -, rfl⟩ | ⟨hnone, -, hnames⟩
    · exact Iff.rfl
    · rw [hnames]
      by_cases hqp : q = p
      · have heq : (q == p) = true := by simpa using hqp
        rw [List.lookup_cons, heq, hqp, hnone]
        constructor
        · rintro ⟨k, hk, rfl⟩
          cases hk
          exact absurd hj (Nat.not_lt.mpr t.2)
        · rintro ⟨k, hk, -⟩
          cases hk
      · have hne : (q == p) = false := by simpa using hqp
        rw [List.lookup_cons, hne]
  · intro p t t' h q j _
    cases h
    exact Iff.rfl
  · intro p t q j _ h
    obtain ⟨k, hk, rfl⟩ := tableFiles_names.mp h
    have hlookup := lookup_filter t.1.names p q
    by_cases hqp : q = p
    · rw [if_pos hqp] at hlookup
      cases hlookup.symm.trans hk
    · rw [if_neg hqp] at hlookup
      exact tableFiles_names.mpr ⟨k, hlookup.symm.trans hk, rfl⟩

end Lib
end ZvolRescue
