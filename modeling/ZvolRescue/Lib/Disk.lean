import Mathlib.Data.List.Infix

/-!
# Directories and files with several names

A path names a directory or a file, and a file can have several names.  It is known by the path
that was its first, so two paths name one file exactly where they are the same first path.  Names
are only added: what is written to one file changes no other (`Disk.Wrote`), and a hard link
changes none at all (`Disk.Linked`).
-/

namespace ZvolRescue
namespace Lib

/-- What a path names. -/
inductive Node (ν : Type) where
  | dir
  /-- The file whose first name was this path. -/
  | file (first : List ν)

/-- The paths below a directory, which is there itself. -/
structure Disk (ν : Type) where
  node : List ν → Option (Node ν)
  /-- The content of a file, by its first name. -/
  data : List ν → List UInt8
  /-- The permissions that were set, by the first name. -/
  mode : List ν → Option Nat
  /-- A file keeps its first name. -/
  first : ∀ q i, node q = some (.file i) → node i = some (.file i)

inductive DiskError where
  | notFound
  | notADirectory
  | isADirectory
  | exists_
  | notPermitted
  /-- The system says no, for a reason of its own. -/
  | refused (what : String)
  deriving DecidableEq, Repr

def DiskError.text : DiskError → String
  | notFound => "No such file or directory (os error 2)"
  | notADirectory => "Not a directory (os error 20)"
  | isADirectory => "Is a directory (os error 21)"
  | exists_ => "File exists (os error 17)"
  | notPermitted => "Operation not permitted (os error 1)"
  | refused what => what

/-- What the system can refuse. -/
inductive DiskOp (ν : Type) where
  | mkdir (path : List ν)
  | create (path : List ν)
  | link (source target : List ν)

variable {ν : Type} [DecidableEq ν]

/-- What the system refuses, with its reason. -/
abbrev Refusals (ν : Type) := Disk ν → DiskOp ν → Option String

namespace Disk

/-- A directory tree that was there before, in which each file has one name. -/
def existing (before : List ν → Option (Option (List UInt8))) : Disk ν where
  node p := (before p).map (fun content => if content.isSome then .file p else .dir)
  data p := ((before p).join).getD []
  mode _ := none
  first q i h := by
    obtain ⟨content, hbefore, hnode⟩ := Option.map_eq_some_iff.mp h
    by_cases hfile : content.isSome = true
    · rw [if_pos hfile, Node.file.injEq] at hnode
      subst hnode
      simp [hbefore, hfile]
    · rw [if_neg hfile] at hnode
      cases hnode

def isFile (d : Disk ν) (p : List ν) : Bool :=
  match d.node p with
  | some (.file _) => true
  | _ => false

/-- Why nothing can be made at a path: what leads there is no directory. -/
def blocked (d : Disk ν) (p : List ν) : Option DiskError :=
  if p.inits.tail.dropLast.any d.isFile then some .notADirectory
  else if p.dropLast = [] then none
  else match d.node p.dropLast with
  | some .dir => none
  | _ => some .notFound

/-- One more name, of a directory or a file that is there. -/
def addName (d : Disk ν) (p : List ν) (n : Node ν) (hfree : d.node p = none)
    (hn : ∀ i, n = .file i → i = p ∨ d.node i = some (.file i)) : Disk ν where
  node q := if q = p then some n else d.node q
  data := d.data
  mode := d.mode
  first q i h := by
    by_cases hq : q = p
    · rw [if_pos hq] at h
      rcases hn i (Option.some.inj h) with rfl | hi
      · rw [if_pos rfl]
        exact h
      · have hne : i ≠ p := fun heq => by rw [heq, hfree] at hi; cases hi
        rw [if_neg hne]
        exact hi
    · rw [if_neg hq] at h
      have hi := d.first q i h
      have hne : i ≠ p := fun heq => by rw [heq, hfree] at hi; cases hi
      rw [if_neg hne]
      exact hi

def store (d : Disk ν) (i : List ν) (bytes : List UInt8) : Disk ν where
  node := d.node
  data j := if j = i then bytes else d.data j
  mode := d.mode
  first := d.first

/-- Make a directory and those above it. -/
def mkdirFrom (refuses : Refusals ν) : (made rest : List ν) → Disk ν → Disk ν × Option DiskError
  | _, [], d => (d, none)
  | made, c :: rest, d =>
    let q := made ++ [c]
    match h : d.node q with
    | some .dir => mkdirFrom refuses q rest d
    | some (.file _) => (d, some (if rest = [] then .exists_ else .notADirectory))
    | none =>
      match refuses d (.mkdir q) with
      | some what => (d, some (.refused what))
      | none => mkdirFrom refuses q rest (d.addName q .dir h (fun i hi => by cases hi))

def mkdirAll (d : Disk ν) (refuses : Refusals ν) (p : List ν) : Disk ν × Option DiskError :=
  mkdirFrom refuses [] p d

/-- Open a file to write it anew, and make it if need be. -/
def create (d : Disk ν) (refuses : Refusals ν) (p : List ν) :
    Except DiskError (List ν × Disk ν) :=
  match d.blocked p with
  | some e => .error e
  | none =>
    match h : d.node p with
    | some .dir => .error .isADirectory
    | some (.file i) =>
      match refuses d (.create p) with
      | some what => .error (.refused what)
      | none => .ok (i, d.store i [])
    | none =>
      match refuses d (.create p) with
      | some what => .error (.refused what)
      | none => .ok (p, (d.addName p (.file p) h (fun i hi => Or.inl (by cases hi; rfl))).store p [])

/-- Give a file another name. -/
def hardLink (d : Disk ν) (refuses : Refusals ν) (source target : List ν) :
    Except DiskError (Disk ν) :=
  match hs : d.node source with
  | none => .error .notFound
  | some .dir => .error .notPermitted
  | some (.file i) =>
    match d.blocked target with
    | some e => .error e
    | none =>
      match ht : d.node target with
      | some _ => .error .exists_
      | none =>
        match refuses d (.link source target) with
        | some what => .error (.refused what)
        | none =>
          .ok (d.addName target (.file i) ht
            (fun j hj => Or.inr (by cases hj; exact d.first source i hs)))

/-- Set the permissions of what a path names. -/
def setMode (d : Disk ν) (p : List ν) (mode : Nat) : Disk ν :=
  match d.node p with
  | none => d
  | some .dir => { d with mode := fun q => if q = p then some mode else d.mode q }
  | some (.file i) => { d with mode := fun q => if q = i then some mode else d.mode q }

/-! ## What the operations change -/

@[simp] theorem setMode_node (d : Disk ν) (p : List ν) (mode : Nat) :
    (d.setMode p mode).node = d.node := by
  rw [setMode]
  split <;> rfl

@[simp] theorem setMode_data (d : Disk ν) (p : List ν) (mode : Nat) :
    (d.setMode p mode).data = d.data := by
  rw [setMode]
  split <;> rfl

/-- The same paths name the same files, and those have the same content. -/
structure SameFiles (d d' : Disk ν) : Prop where
  node : ∀ q i, d'.node q = some (.file i) ↔ d.node q = some (.file i)
  data : d'.data = d.data
  dir : ∀ q, d.node q = some .dir → d'.node q = some .dir

/-- A file was written anew through a path that named it, or at a path that named nothing. -/
structure Wrote (d d' : Disk ν) (p i : List ν) (bytes : List UInt8) : Prop where
  node : ∀ q, d'.node q = if q = p then some (.file i) else d.node q
  data : ∀ j, d'.data j = if j = i then bytes else d.data j
  named : d.node p = some (.file i) ∨ d.node p = none ∧ i = p

/-- A path that named nothing names the file of another path. -/
structure Linked (d d' : Disk ν) (source target i : List ν) : Prop where
  node : ∀ q, d'.node q = if q = target then some (.file i) else d.node q
  data : d'.data = d.data
  source : d.node source = some (.file i)
  target : d.node target = none

theorem Wrote.dir {d d' : Disk ν} {p i : List ν} {bytes : List UInt8} (h : Wrote d d' p i bytes)
    {q : List ν} (hq : d.node q = some .dir) : d'.node q = some .dir := by
  have hne : q ≠ p := by
    intro heq
    rw [heq] at hq
    rcases h.named with hfile | ⟨hnone, -⟩
    · rw [hq] at hfile
      cases hfile
    · rw [hq] at hnone
      cases hnone
  rw [h.node, if_neg hne]
  exact hq

theorem Linked.dir {d d' : Disk ν} {source target i : List ν} (h : Linked d d' source target i)
    {q : List ν} (hq : d.node q = some .dir) : d'.node q = some .dir := by
  have hne : q ≠ target := by
    intro heq
    rw [heq, h.target] at hq
    cases hq
  rw [h.node, if_neg hne]
  exact hq

omit [DecidableEq ν] in
theorem SameFiles.refl (d : Disk ν) : SameFiles d d :=
  ⟨fun _ _ => Iff.rfl, rfl, fun _ h => h⟩

omit [DecidableEq ν] in
theorem SameFiles.trans {d d' d'' : Disk ν} (h : SameFiles d d') (h' : SameFiles d' d'') :
    SameFiles d d'' :=
  ⟨fun q i => (h'.node q i).trans (h.node q i), h'.data.trans h.data,
    fun q hq => h'.dir q (h.dir q hq)⟩

theorem addName_dir_sameFiles (d : Disk ν) (p : List ν) (hfree : d.node p = none)
    (hn : ∀ i, Node.dir = .file i → i = p ∨ d.node i = some (.file i)) :
    SameFiles d (d.addName p .dir hfree hn) where
  node q i := by
    show (if q = p then _ else _) = _ ↔ _
    by_cases hq : q = p
    · rw [if_pos hq, hq, hfree]
      simp
    · rw [if_neg hq]
  data := rfl
  dir q h := by
    show (if q = p then _ else _) = _
    by_cases hq : q = p
    · rw [if_pos hq]
    · rw [if_neg hq]
      exact h

theorem mkdirFrom_sameFiles (refuses : Refusals ν) (rest : List ν) : ∀ (made : List ν) (d : Disk ν),
    SameFiles d (mkdirFrom refuses made rest d).1 := by
  induction rest with
  | nil =>
    intro made d
    exact SameFiles.refl d
  | cons c rest ih =>
    intro made d
    rw [mkdirFrom]
    split
    · exact ih _ d
    · exact SameFiles.refl d
    · split
      · exact SameFiles.refl d
      · exact (addName_dir_sameFiles d _ _ _).trans (ih _ _)

theorem mkdirAll_sameFiles (d : Disk ν) (refuses : Refusals ν) (p : List ν) :
    SameFiles d (d.mkdirAll refuses p).1 :=
  mkdirFrom_sameFiles refuses p [] d

theorem setMode_sameFiles (d : Disk ν) (p : List ν) (mode : Nat) :
    SameFiles d (d.setMode p mode) := by
  rw [setMode]
  split <;> exact ⟨fun _ _ => Iff.rfl, rfl, fun _ h => h⟩

omit [DecidableEq ν] in
theorem SameFiles.stays {d d' : Disk ν} (h : SameFiles d d') {q : List ν} (hq : d.node q ≠ none) :
    d'.node q ≠ none := by
  cases hnode : d.node q with
  | none => exact absurd hnode hq
  | some n =>
    cases n with
    | dir => rw [h.dir q hnode]; exact Option.some_ne_none _
    | file i => rw [(h.node q i).mpr hnode]; exact Option.some_ne_none _

theorem Wrote.stays {d d' : Disk ν} {p i : List ν} {bytes : List UInt8} (h : Wrote d d' p i bytes)
    {q : List ν} (hq : q = p ∨ d.node q ≠ none) : d'.node q ≠ none := by
  rw [h.node]
  by_cases hqp : q = p
  · rw [if_pos hqp]
    exact Option.some_ne_none _
  · rw [if_neg hqp]
    exact hq.resolve_left hqp

theorem Linked.stays {d d' : Disk ν} {source target i : List ν} (h : Linked d d' source target i)
    {q : List ν} (hq : q = target ∨ d.node q ≠ none) : d'.node q ≠ none := by
  rw [h.node]
  by_cases hqt : q = target
  · rw [if_pos hqt]
    exact Option.some_ne_none _
  · rw [if_neg hqt]
    exact hq.resolve_left hqt

omit [DecidableEq ν] in
theorem blocked_root (d : Disk ν) (x : ν) : d.blocked [x] = none := rfl

/-- In the directory itself a file can be made, unless one is there or the system says no. -/
theorem create_root {d : Disk ν} {refuses : Refusals ν} {x : ν} (h : d.node [x] = none)
    (hrefuses : refuses d (.create [x]) = none) : ∃ made, d.create refuses [x] = .ok made := by
  rw [create, blocked_root]
  simp only []
  split
  · rename_i hnode
    rw [h] at hnode
    cases hnode
  · rename_i hnode
    rw [h] at hnode
    cases hnode
  · rw [hrefuses]
    exact ⟨_, rfl⟩

/-- So can a link to a file. -/
theorem hardLink_root {d : Disk ν} {refuses : Refusals ν} {source i : List ν} {x : ν}
    (hsource : d.node source = some (.file i)) (h : d.node [x] = none)
    (hrefuses : refuses d (.link source [x]) = none) :
    ∃ linked, d.hardLink refuses source [x] = .ok linked := by
  rw [hardLink]
  split
  · rename_i hnode
    rw [hsource] at hnode
    cases hnode
  · rename_i hnode
    rw [hsource] at hnode
    cases hnode
  · rw [blocked_root]
    simp only []
    split
    · rename_i hnode
      rw [h] at hnode
      cases hnode
    · rw [hrefuses]
      exact ⟨_, rfl⟩

theorem create_wrote {d d' : Disk ν} {refuses : Refusals ν} {p i : List ν}
    (h : d.create refuses p = .ok (i, d')) (bytes : List UInt8) :
    Wrote d (d'.store i bytes) p i bytes := by
  rw [create] at h
  split at h
  · cases h
  · split at h
    · cases h
    · rename_i j hnode
      split at h
      · cases h
      · cases h
        refine ⟨fun q => ?_, fun k => ?_, Or.inl hnode⟩
        · show d.node q = _
          by_cases hq : q = p
          · rw [if_pos hq, hq, hnode]
          · rw [if_neg hq]
        · show (if k = i then bytes else if k = i then [] else d.data k) = _
          by_cases hk : k = i
          · rw [if_pos hk, if_pos hk]
          · rw [if_neg hk, if_neg hk, if_neg hk]
    · rename_i hnode
      split at h
      · cases h
      · cases h
        refine ⟨fun q => rfl, fun k => ?_, Or.inr ⟨hnode, rfl⟩⟩
        show (if k = p then bytes else if k = p then [] else d.data k) = _
        by_cases hk : k = p
        · rw [if_pos hk, if_pos hk]
        · rw [if_neg hk, if_neg hk, if_neg hk]

theorem hardLink_linked {d d' : Disk ν} {refuses : Refusals ν} {source target : List ν}
    (h : d.hardLink refuses source target = .ok d') : ∃ i, Linked d d' source target i := by
  rw [hardLink] at h
  split at h
  · cases h
  · cases h
  · rename_i i hsource
    split at h
    · cases h
    · split at h
      · cases h
      · rename_i htarget
        split at h
        · cases h
        · cases h
          exact ⟨i, fun q => rfl, rfl, hsource, htarget⟩

/-! ## Where nothing is refused -/

/-- The content of the file at a path. -/
def contentAt (d : Disk ν) (q : List ν) : Option (List UInt8) :=
  match d.node q with
  | some (.file i) => some (d.data i)
  | _ => none

omit [DecidableEq ν] in
theorem SameFiles.contentAt {d d' : Disk ν} (h : SameFiles d d') (q : List ν) :
    d'.contentAt q = d.contentAt q := by
  have hnode : ∀ i, d'.node q = some (.file i) ↔ d.node q = some (.file i) := h.node q
  rw [Disk.contentAt, Disk.contentAt, h.data]
  cases hd : d.node q with
  | none =>
    cases hd' : d'.node q with
    | none => rfl
    | some n =>
      cases n with
      | dir => rfl
      | file i =>
        rw [hd, hd'] at hnode
        exact absurd ((hnode i).mp rfl) (Option.some_ne_none _).symm
  | some n =>
    cases n with
    | dir => rw [h.dir q hd]
    | file i => rw [(hnode i).mpr hd]

/-- A file that was written through its only name is written alone. -/
theorem Wrote.contentAt {d d' : Disk ν} {p : List ν} {bytes : List UInt8} (h : Wrote d d' p p bytes)
    (hown : ∀ q, d.node q = some (.file p) → q = p) (q : List ν) :
    d'.contentAt q = if q = p then some bytes else d.contentAt q := by
  rw [Disk.contentAt, Disk.contentAt, h.node]
  by_cases hq : q = p
  · rw [if_pos hq, if_pos hq]
    show some (d'.data p) = some bytes
    rw [h.data, if_pos rfl]
  · rw [if_neg hq, if_neg hq]
    cases hnode : d.node q with
    | none => rfl
    | some n =>
      cases n with
      | dir => rfl
      | file i =>
        have hi : i ≠ p := by
          intro heq
          rw [heq] at hnode
          exact hq (hown q hnode)
        show some (d'.data i) = some (d.data i)
        rw [h.data, if_neg hi]

omit [DecidableEq ν] in
theorem mem_tail_inits_dropLast {p q : List ν} (h : q ∈ p.inits.tail.dropLast) :
    q ≠ [] ∧ q <+: p.dropLast := by
  have hinits : ∀ (l r : List ν), r ∈ l.inits.dropLast → r <+: l.dropLast := by
    intro l
    induction l with
    | nil =>
      intro r hr
      cases hr
    | cons a l ih =>
      intro r hr
      cases l with
      | nil =>
        have hnil : r = [] := by simpa using hr
        rw [hnil]
        exact List.nil_prefix
      | cons b l =>
        rw [List.inits_cons, List.dropLast_cons_of_ne_nil (by simp)] at hr
        rcases List.mem_cons.mp hr with rfl | hr
        · exact List.nil_prefix
        · rw [← List.map_dropLast] at hr
          obtain ⟨r', hr', rfl⟩ := List.mem_map.mp hr
          rw [List.dropLast_cons_of_ne_nil (List.cons_ne_nil b l), List.cons_prefix_cons]
          exact ⟨rfl, ih r' hr'⟩
  cases p with
  | nil => cases h
  | cons a p =>
    rw [List.inits_cons, List.tail_cons, ← List.map_dropLast] at h
    obtain ⟨r, hr, rfl⟩ := List.mem_map.mp h
    refine ⟨List.cons_ne_nil _ _, ?_⟩
    cases p with
    | nil => cases hr
    | cons b p =>
      rw [List.dropLast_cons_of_ne_nil (List.cons_ne_nil b p), List.cons_prefix_cons]
      exact ⟨rfl, hinits _ r hr⟩

omit [DecidableEq ν] in
/-- Nothing is in the way of a name in a directory that is there. -/
theorem blocked_eq_none {d : Disk ν} {p : List ν}
    (hfile : ∀ q, q ≠ [] → q <+: p.dropLast → ∀ i, d.node q ≠ some (.file i))
    (hdir : p.dropLast = [] ∨ d.node p.dropLast = some .dir) : d.blocked p = none := by
  have hany : p.inits.tail.dropLast.any d.isFile = false := by
    rw [List.any_eq_false]
    intro q hq
    obtain ⟨hne, hpre⟩ := mem_tail_inits_dropLast hq
    rw [isFile]
    split
    · rename_i i hi
      exact absurd hi (hfile q hne hpre i)
    · exact Bool.false_ne_true
  rw [blocked, hany, if_neg Bool.false_ne_true]
  rcases hdir with hroot | hdir
  · rw [if_pos hroot]
  · by_cases hroot : p.dropLast = []
    · rw [if_pos hroot]
    · rw [if_neg hroot, hdir]

omit [DecidableEq ν] in
theorem blocked_of_missing {d : Disk ν} {p : List ν} (hroot : p.dropLast ≠ [])
    (hdir : d.node p.dropLast ≠ some .dir) : ∃ e, d.blocked p = some e := by
  rw [blocked]
  by_cases hany : p.inits.tail.dropLast.any d.isFile = true
  · exact ⟨_, if_pos hany⟩
  · rw [if_neg hany, if_neg hroot]
    split
    · rename_i heq
      exact absurd heq hdir
    · exact ⟨_, rfl⟩

section Free

variable {refuses : Refusals ν} (hfree : ∀ d op, refuses d op = none)

include hfree

/-- Where no file is in the way a directory is made with all that lie above it, and nothing
else. -/
theorem mkdirFrom_free : ∀ (rest made : List ν) (d : Disk ν),
    (∀ r, r ≠ [] → r <+: rest → ∀ i, d.node (made ++ r) ≠ some (.file i)) →
      (mkdirFrom refuses made rest d).2 = none ∧
      (∀ r, r ≠ [] → r <+: rest → (mkdirFrom refuses made rest d).1.node (made ++ r) = some .dir) ∧
      ∀ q, (∀ r, r ≠ [] → r <+: rest → q ≠ made ++ r) →
        (mkdirFrom refuses made rest d).1.node q = d.node q := by
  intro rest
  induction rest with
  | nil =>
    intro made d _
    exact ⟨rfl, fun r hne hr => absurd (List.prefix_nil.mp hr) hne, fun q _ => rfl⟩
  | cons c rest ih =>
    intro made d hfile
    have hfirst : ∀ i, d.node (made ++ [c]) ≠ some (.file i) :=
      hfile [c] (List.cons_ne_nil _ _) (by rw [List.cons_prefix_cons]; exact ⟨rfl, List.nil_prefix⟩)
    have hnext : ∀ r, r ≠ [] → r <+: rest → ∀ i, d.node (made ++ [c] ++ r) ≠ some (.file i) := by
      intro r _ hr i
      rw [List.append_assoc]
      exact hfile (c :: r) (List.cons_ne_nil _ _) (by rw [List.cons_prefix_cons]; exact ⟨rfl, hr⟩) i
    -- Either the next directory is there, or it is made.
    have hstep : ∃ d' : Disk ν, mkdirFrom refuses made (c :: rest) d =
        mkdirFrom refuses (made ++ [c]) rest d' ∧
        ∀ q, d'.node q = if q = made ++ [c] then some .dir else d.node q := by
      rw [mkdirFrom]
      split
      · rename_i hdir
        refine ⟨d, rfl, fun q => ?_⟩
        by_cases hq : q = made ++ [c]
        · rw [if_pos hq, hq, hdir]
        · rw [if_neg hq]
      · rename_i i hi
        exact absurd hi (hfirst i)
      · rw [hfree]
        exact ⟨_, rfl, fun q => rfl⟩
    obtain ⟨d', heq, hnode⟩ := hstep
    have hfile' : ∀ r, r ≠ [] → r <+: rest → ∀ i, d'.node (made ++ [c] ++ r) ≠ some (.file i) := by
      intro r hne hr i
      rw [hnode, if_neg (by simp [hne])]
      exact hnext r hne hr i
    obtain ⟨hnone, hmade, hsame⟩ := ih (made ++ [c]) d' hfile'
    rw [heq]
    refine ⟨hnone, fun r hne hr => ?_, fun q hq => ?_⟩
    · cases r with
      | nil => exact absurd rfl hne
      | cons b r =>
        obtain ⟨rfl, hrest⟩ := List.cons_prefix_cons.mp hr
        by_cases hnil : r = []
        · rw [hnil, hsame _ (fun r' hne' _ => by simp [hne']), hnode, if_pos rfl]
        · have hsplit : made ++ b :: r = made ++ [b] ++ r := by simp
          rw [hsplit]
          exact hmade r hnil hrest
    · have hqc : q ≠ made ++ [c] :=
        hq [c] (List.cons_ne_nil _ _) (by rw [List.cons_prefix_cons]; exact ⟨rfl, List.nil_prefix⟩)
      rw [hsame q (fun r _ hr => ?_), hnode, if_neg hqc]
      have hqr := hq (c :: r) (List.cons_ne_nil _ _)
        (by rw [List.cons_prefix_cons]; exact ⟨rfl, hr⟩)
      simpa using hqr

theorem mkdirAll_free {d : Disk ν} {p : List ν}
    (hfile : ∀ q, q ≠ [] → q <+: p → ∀ i, d.node q ≠ some (.file i)) :
    (d.mkdirAll refuses p).2 = none ∧
      ∀ q, (q ≠ [] ∧ q <+: p → (d.mkdirAll refuses p).1.node q = some .dir) ∧
        (¬ (q ≠ [] ∧ q <+: p) → (d.mkdirAll refuses p).1.node q = d.node q) := by
  obtain ⟨hnone, hmade, hsame⟩ := mkdirFrom_free hfree p [] d hfile
  refine ⟨hnone, fun q => ⟨fun hq => hmade q hq.1 hq.2, fun hq => hsame q (fun r hne hr heq => ?_)⟩⟩
  rw [heq, List.nil_append] at hq
  exact hq ⟨hne, hr⟩

/-- Nothing in the way, a file can be made where no directory is. -/
theorem create_free {d : Disk ν} {p : List ν} (hblocked : d.blocked p = none)
    (hdir : d.node p ≠ some .dir) : ∃ i d', d.create refuses p = .ok (i, d') := by
  rw [create, hblocked]
  simp only []
  split
  · rename_i heq
    exact absurd heq hdir
  · rw [hfree]
    exact ⟨_, _, rfl⟩
  · rw [hfree]
    exact ⟨_, _, rfl⟩

end Free

end Disk

end Lib
end ZvolRescue
