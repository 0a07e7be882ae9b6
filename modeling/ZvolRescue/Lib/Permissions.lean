import ZvolRescue.Lib.Disk

/-!
# What permissions forbid

A user who does not own every right makes nothing in a directory that its owner may not write or
search, and opens no file that its owner may not write.  Where that stands in the way of nothing,
the operations do what they do where nothing is refused (`mkdirAll_alike`, `create_alike`,
`hardLink_alike`); a path that is missing in such a directory stays missing (`Lost`).
-/

namespace ZvolRescue
namespace Lib

/-- The owner may write. -/
def writable (mode : Nat) : Bool := mode.testBit 7

/-- The owner may write and search. -/
def enterable (mode : Nat) : Bool := mode.testBit 7 && mode.testBit 6

variable {ν : Type} [DecidableEq ν]

namespace Disk

/-- The first name of what a path names. -/
def inode (d : Disk ν) (p : List ν) : Option (List ν) :=
  match d.node p with
  | none => none
  | some .dir => some p
  | some (.file i) => some i

/-- The permissions that were set of what a path names. -/
def modeAt (d : Disk ν) (p : List ν) : Option Nat := (d.inode p).bind d.mode

/-- A directory in which its owner makes nothing. -/
def closed (d : Disk ν) (p : List ν) : Bool :=
  match d.node p with
  | some .dir => (d.mode p).any (fun mode => !enterable mode)
  | _ => false

/-- A file that its owner does not write. -/
def readOnly (d : Disk ν) (i : List ν) : Bool := (d.mode i).any (fun mode => !writable mode)

/-- What the permissions forbid. -/
def forbids (d : Disk ν) : DiskOp ν → Bool
  | .mkdir p => d.closed p.dropLast
  | .create p =>
    match d.node p with
    | some (.file i) => d.readOnly i
    | _ => d.closed p.dropLast
  | .link _ target => d.closed target.dropLast

end Disk

/-- What is refused is what the permissions forbid. -/
def Unprivileged (refuses : Refusals ν) : Prop :=
  ∀ d op, refuses d op = none ↔ d.forbids op = false

/-- What the permissions forbid is refused. -/
def denied : Refusals ν :=
  fun d op => if d.forbids op then some "Permission denied (os error 13)" else none

omit [DecidableEq ν] in
theorem denied_unprivileged : Unprivileged (denied : Refusals ν) := by
  intro d op
  rw [denied]
  cases d.forbids op <;> simp

/-- Nothing is refused. -/
def freely : Refusals ν := fun _ _ => none

namespace Disk

/-- The same paths name the same things, with the same content. -/
structure Alike (d d' : Disk ν) : Prop where
  node : d'.node = d.node
  data : d'.data = d.data

/-- Names are added, and no permissions change. -/
structure Grows (d d' : Disk ν) : Prop where
  mode : d'.mode = d.mode
  node : ∀ q n, d.node q = some n → d'.node q = some n

/-- What is not there has no permissions. -/
def Kempt (d : Disk ν) : Prop := ∀ q, d.node q = none → d.mode q = none

section Grows

omit [DecidableEq ν]

theorem Grows.refl (d : Disk ν) : Grows d d := ⟨rfl, fun _ _ h => h⟩

theorem Grows.trans {d d' d'' : Disk ν} (h : Grows d d') (h' : Grows d' d'') : Grows d d'' :=
  ⟨h'.mode.trans h.mode, fun q n hq => h'.node q n (h.node q n hq)⟩

theorem Grows.missing {d d' : Disk ν} (h : Grows d d') {q : List ν} (hq : d'.node q = none) :
    d.node q = none := by
  cases hnode : d.node q with
  | none => rfl
  | some n =>
    rw [h.node q n hnode] at hq
    cases hq

theorem Grows.kempt {d d' : Disk ν} (h : Grows d d') (hd : Kempt d) : Kempt d' := by
  intro q hq
  rw [h.mode]
  exact hd q (h.missing hq)

theorem closed_iff {d : Disk ν} {p : List ν} :
    d.closed p = true ↔ d.node p = some .dir ∧ ∃ mode, d.mode p = some mode ∧
      enterable mode = false := by
  rw [closed]
  split
  · rename_i hdir
    simp [hdir, Option.any_eq_true]
  · rename_i hdir
    simp only [Bool.false_eq_true, false_iff]
    exact fun h => hdir h.1

/-- A directory that was just made is open. -/
theorem Grows.closed_eq {d d' : Disk ν} (h : Grows d d') (hd : Kempt d) (p : List ν) :
    d'.closed p = d.closed p := by
  rw [Bool.eq_iff_iff, closed_iff, closed_iff, h.mode]
  constructor
  · rintro ⟨hdir, mode, hmode, hclosed⟩
    refine ⟨?_, mode, hmode, hclosed⟩
    cases hnode : d.node p with
    | none =>
      rw [hd p hnode] at hmode
      cases hmode
    | some n =>
      rw [h.node p n hnode] at hdir
      exact hdir
  · rintro ⟨hdir, hmode⟩
    exact ⟨h.node p _ hdir, hmode⟩

theorem Grows.inode_eq {d d' : Disk ν} (h : Grows d d') {q : List ν} (hq : d.node q ≠ none) :
    d'.inode q = d.inode q := by
  obtain ⟨n, hn⟩ := Option.ne_none_iff_exists'.mp hq
  rw [inode, inode, h.node q n hn, hn]

theorem Grows.modeAt_eq {d d' : Disk ν} (h : Grows d d') {q : List ν} (hq : d.node q ≠ none) :
    d'.modeAt q = d.modeAt q := by
  rw [modeAt, modeAt, h.inode_eq hq, h.mode]

end Grows

theorem addName_grows (d : Disk ν) (p : List ν) (n : Node ν) (hfree : d.node p = none)
    (hn : ∀ i, n = .file i → i = p ∨ d.node i = some (.file i)) :
    Grows d (d.addName p n hfree hn) where
  mode := rfl
  node q n' hq := by
    have hne : q ≠ p := by
      intro heq
      rw [heq, hfree] at hq
      cases hq
    show (if q = p then _ else d.node q) = _
    rw [if_neg hne]
    exact hq

theorem mkdirFrom_grows (refuses : Refusals ν) (rest : List ν) : ∀ (made : List ν) (d : Disk ν),
    Grows d (mkdirFrom refuses made rest d).1 := by
  induction rest with
  | nil =>
    intro made d
    exact Grows.refl d
  | cons c rest ih =>
    intro made d
    rw [mkdirFrom]
    split
    · exact ih _ d
    · exact Grows.refl d
    · split
      · exact Grows.refl d
      · exact (addName_grows d _ _ _ _).trans (ih _ _)

theorem mkdirAll_grows (d : Disk ν) (refuses : Refusals ν) (p : List ν) :
    Grows d (d.mkdirAll refuses p).1 := mkdirFrom_grows refuses p [] d

omit [DecidableEq ν] in
theorem Grows.store [DecidableEq ν] {d d' : Disk ν} (h : Grows d d') (i : List ν)
    (bytes : List UInt8) : Grows d (d'.store i bytes) := ⟨h.mode, h.node⟩

theorem create_grows {d d' : Disk ν} {refuses : Refusals ν} {p i : List ν}
    (h : d.create refuses p = .ok (i, d')) : Grows d d' := by
  rw [create] at h
  split at h
  · cases h
  · split at h
    · cases h
    · split at h
      · cases h
      · cases h
        exact (Grows.refl d).store _ _
    · split at h
      · cases h
      · cases h
        exact (addName_grows d _ _ _ _).store _ _

theorem hardLink_grows {d d' : Disk ν} {refuses : Refusals ν} {source target : List ν}
    (h : d.hardLink refuses source target = .ok d') : Grows d d' := by
  rw [hardLink] at h
  split at h
  · cases h
  · cases h
  · split at h
    · cases h
    · split at h
      · cases h
      · split at h
        · cases h
        · cases h
          exact addName_grows d _ _ _ _

/-! ## Permissions that are set -/

theorem setMode_mode (d : Disk ν) (p : List ν) (mode : Nat) (i : List ν) :
    (d.setMode p mode).mode i = if d.inode p = some i then some mode else d.mode i := by
  rw [setMode, inode]
  cases d.node p with
  | none => rfl
  | some n =>
    cases n with
    | dir =>
      by_cases hi : i = p
      · simp [hi]
      · simp [hi, Ne.symm hi]
    | file j =>
      by_cases hi : i = j
      · simp [hi]
      · simp [hi, Ne.symm hi]

theorem setMode_inode (d : Disk ν) (p : List ν) (mode : Nat) (q : List ν) :
    (d.setMode p mode).inode q = d.inode q := by
  rw [inode, inode, setMode_node]

theorem setMode_modeAt (d : Disk ν) (p : List ν) (mode : Nat) (q : List ν) :
    (d.setMode p mode).modeAt q =
      if d.inode q ≠ none ∧ d.inode q = d.inode p then some mode else d.modeAt q := by
  rw [modeAt, modeAt, setMode_inode]
  cases hq : d.inode q with
  | none => simp
  | some i =>
    show (d.setMode p mode).mode i = _
    rw [setMode_mode]
    by_cases hi : d.inode p = some i
    · simp [hi]
    · simp [hi, Ne.symm hi]

omit [DecidableEq ν] in
theorem node_inode {d : Disk ν} {p i : List ν} (h : d.inode p = some i) : d.node i ≠ none := by
  rw [inode] at h
  split at h
  · cases h
  · rename_i hdir
    cases h
    rw [hdir]
    exact Option.some_ne_none _
  · rename_i j hfile
    cases h
    rw [d.first p i hfile]
    exact Option.some_ne_none _

theorem Kempt.setMode {d : Disk ν} (h : Kempt d) (p : List ν) (mode : Nat) :
    Kempt (d.setMode p mode) := by
  intro q hq
  rw [setMode_node] at hq
  have hne : d.inode p ≠ some q := fun heq => node_inode heq hq
  rw [setMode_mode, if_neg hne]
  exact h q hq

omit [DecidableEq ν] in
/-- A directory is known by its path alone. -/
theorem inode_eq_dir {d : Disk ν} {p q : List ν} (hdir : d.node p = some .dir)
    (h : d.inode q = some p) : q = p := by
  rw [inode] at h
  split at h
  · cases h
  · exact Option.some.inj h
  · rename_i i hfile
    cases h
    have hfirst := d.first q p hfile
    rw [hdir] at hfirst
    cases hfirst

theorem closed_setMode {d : Disk ν} {p q : List ν} {mode : Nat}
    (h : (d.setMode p mode).closed q = true) :
    d.closed q = true ∨ d.node p = some .dir ∧ q = p ∧ enterable mode = false := by
  obtain ⟨hdir, mode', hmode, hclosed⟩ := closed_iff.mp h
  rw [setMode_node] at hdir
  rw [setMode_mode] at hmode
  by_cases hinode : d.inode p = some q
  · rw [if_pos hinode] at hmode
    rw [← Option.some.inj hmode] at hclosed
    have hp := inode_eq_dir hdir hinode
    rw [hp]
    exact Or.inr ⟨hdir, rfl, hclosed⟩
  · rw [if_neg hinode] at hmode
    exact Or.inl (closed_iff.mpr ⟨hdir, mode', hmode, hclosed⟩)

/-! ## One operation by what its path names -/

section Cases

variable {refuses : Refusals ν} {d : Disk ν}

theorem mkdirFrom_of_dir {made rest : List ν} {c : ν} (h : d.node (made ++ [c]) = some .dir) :
    mkdirFrom refuses made (c :: rest) d = mkdirFrom refuses (made ++ [c]) rest d := by
  rw [mkdirFrom]
  split
  · rfl
  · rename_i hnode
    rw [h] at hnode
    cases hnode
  · rename_i hnode
    rw [h] at hnode
    cases hnode

theorem mkdirFrom_of_file {made rest i : List ν} {c : ν}
    (h : d.node (made ++ [c]) = some (.file i)) :
    mkdirFrom refuses made (c :: rest) d =
      (d, some (if rest = [] then .exists_ else .notADirectory)) := by
  rw [mkdirFrom]
  split
  · rename_i hnode
    rw [h] at hnode
    cases hnode
  · rfl
  · rename_i hnode
    rw [h] at hnode
    cases hnode

theorem mkdirFrom_of_missing {made rest : List ν} {c : ν} (h : d.node (made ++ [c]) = none) :
    mkdirFrom refuses made (c :: rest) d =
      match refuses d (.mkdir (made ++ [c])) with
      | some what => (d, some (.refused what))
      | none => mkdirFrom refuses (made ++ [c]) rest
          (d.addName (made ++ [c]) .dir h (fun i hi => by cases hi)) := by
  rw [mkdirFrom]
  split
  · rename_i hnode
    rw [h] at hnode
    cases hnode
  · rename_i hnode
    rw [h] at hnode
    cases hnode
  · rfl

theorem create_of_dir {p : List ν} (hblocked : d.blocked p = none) (h : d.node p = some .dir) :
    d.create refuses p = .error .isADirectory := by
  rw [create, hblocked]
  simp only []
  split
  · rfl
  · rename_i hnode
    rw [h] at hnode
    cases hnode
  · rename_i hnode
    rw [h] at hnode
    cases hnode

theorem create_of_file {p i : List ν} (hblocked : d.blocked p = none)
    (h : d.node p = some (.file i)) :
    d.create refuses p =
      match refuses d (.create p) with
      | some what => .error (.refused what)
      | none => .ok (i, d.store i []) := by
  rw [create, hblocked]
  simp only []
  split
  · rename_i hnode
    rw [h] at hnode
    cases hnode
  · rename_i hnode
    rw [h] at hnode
    cases hnode
    rfl
  · rename_i hnode
    rw [h] at hnode
    cases hnode

theorem create_of_missing {p : List ν} (hblocked : d.blocked p = none) (h : d.node p = none) :
    d.create refuses p =
      match refuses d (.create p) with
      | some what => .error (.refused what)
      | none => .ok (p, (d.addName p (.file p) h
          (fun i hi => Or.inl (by cases hi; rfl))).store p []) := by
  rw [create, hblocked]
  simp only []
  split
  · rename_i hnode
    rw [h] at hnode
    cases hnode
  · rename_i hnode
    rw [h] at hnode
    cases hnode
  · rfl

theorem mkdirFrom_dir : ∀ (rest made : List ν) (d : Disk ν) (q : List ν),
    (mkdirFrom refuses made rest d).1.node q = some .dir →
      d.node q = some .dir ∨ ∃ r, r ≠ [] ∧ r <+: rest ∧ q = made ++ r := by
  intro rest
  induction rest with
  | nil =>
    intro made d q hq
    exact Or.inl hq
  | cons c rest ih =>
    intro made d q hq
    have hnext : ∀ d' : Disk ν, (∀ q, d'.node q = some .dir →
        d.node q = some .dir ∨ q = made ++ [c]) →
          (mkdirFrom refuses (made ++ [c]) rest d').1.node q = some .dir →
            d.node q = some .dir ∨ ∃ r, r ≠ [] ∧ r <+: c :: rest ∧ q = made ++ r := by
      intro d' hd' hq
      rcases ih (made ++ [c]) d' q hq with hdir | ⟨r, -, hr, heq⟩
      · refine (hd' q hdir).imp_right (fun heq => ⟨[c], List.cons_ne_nil _ _, ?_, heq⟩)
        exact List.cons_prefix_cons.mpr ⟨rfl, List.nil_prefix⟩
      · refine Or.inr ⟨c :: r, List.cons_ne_nil _ _, List.cons_prefix_cons.mpr ⟨rfl, hr⟩, ?_⟩
        rw [heq, List.append_assoc, List.singleton_append]
    cases hnode : d.node (made ++ [c]) with
    | none =>
      rw [mkdirFrom_of_missing hnode] at hq
      cases hwhat : refuses d (.mkdir (made ++ [c])) with
      | some what =>
        rw [hwhat] at hq
        exact Or.inl hq
      | none =>
        rw [hwhat] at hq
        refine hnext _ (fun q hdir => ?_) hq
        by_cases heq : q = made ++ [c]
        · exact Or.inr heq
        · have hdir : (if q = made ++ [c] then some .dir else d.node q) = some .dir := hdir
          rw [if_neg heq] at hdir
          exact Or.inl hdir
    | some n =>
      cases n with
      | dir =>
        rw [mkdirFrom_of_dir hnode] at hq
        exact hnext d (fun q hdir => Or.inl hdir) hq
      | file i =>
        rw [mkdirFrom_of_file hnode] at hq
        exact Or.inl hq

/-- A directory that is there was there, or leads to the one that was to be made. -/
theorem mkdirAll_dir {p q : List ν} (h : (d.mkdirAll refuses p).1.node q = some .dir) :
    d.node q = some .dir ∨ q ≠ [] ∧ q <+: p := by
  rcases mkdirFrom_dir p [] d q h with hdir | ⟨r, hne, hr, rfl⟩
  · exact Or.inl hdir
  · exact Or.inr ⟨hne, hr⟩

theorem mkdirFrom_ok : ∀ (rest made : List ν) (d : Disk ν), rest ≠ [] →
    (mkdirFrom refuses made rest d).2 = none →
      (mkdirFrom refuses made rest d).1.node (made ++ rest) = some .dir := by
  intro rest
  induction rest with
  | nil =>
    intro made d hne _
    exact absurd rfl hne
  | cons c rest ih =>
    intro made d _ hok
    have hnext : ∀ d' : Disk ν, d'.node (made ++ [c]) = some .dir →
        (mkdirFrom refuses (made ++ [c]) rest d').2 = none →
          (mkdirFrom refuses (made ++ [c]) rest d').1.node (made ++ c :: rest) = some .dir := by
      intro d' hdir hok'
      by_cases hrest : rest = []
      · rw [hrest]
        exact hdir
      · have hmade := ih (made ++ [c]) d' hrest hok'
        rw [List.append_assoc] at hmade
        exact hmade
    cases hnode : d.node (made ++ [c]) with
    | none =>
      rw [mkdirFrom_of_missing hnode] at hok ⊢
      cases hwhat : refuses d (.mkdir (made ++ [c])) with
      | some what =>
        rw [hwhat] at hok
        cases hok
      | none =>
        rw [hwhat] at hok
        exact hnext _ (if_pos rfl) hok
    | some n =>
      cases n with
      | dir =>
        rw [mkdirFrom_of_dir hnode] at hok ⊢
        exact hnext d hnode hok
      | file i =>
        rw [mkdirFrom_of_file hnode] at hok
        cases hok

/-- A directory that was made without an error is there. -/
theorem mkdirAll_ok {p : List ν} (hne : p ≠ []) (hok : (d.mkdirAll refuses p).2 = none) :
    (d.mkdirAll refuses p).1.node p = some .dir := mkdirFrom_ok p [] d hne hok

/-- Why a file is not linked, before the system is asked. -/
def unlinked (d : Disk ν) (source target : List ν) : Option DiskError :=
  match d.node source with
  | none => some .notFound
  | some .dir => some .notPermitted
  | some (.file _) =>
    match d.blocked target with
    | some e => some e
    | none =>
      match d.node target with
      | none => none
      | some _ => some .exists_

theorem hardLink_of_unlinked {source target : List ν} {e : DiskError}
    (h : d.unlinked source target = some e) : d.hardLink refuses source target = .error e := by
  rw [unlinked] at h
  rw [hardLink]
  split
  · rename_i hs
    rw [hs] at h
    rw [← Option.some.inj h]
  · rename_i hs
    rw [hs] at h
    rw [← Option.some.inj h]
  · rename_i i hs
    rw [hs] at h
    simp only [] at h
    split
    · rename_i e' hblocked
      rw [hblocked] at h
      rw [← Option.some.inj h]
    · rename_i hblocked
      rw [hblocked] at h
      simp only [] at h
      split
      · rename_i n ht
        rw [ht] at h
        rw [← Option.some.inj h]
      · rename_i ht
        rw [ht] at h
        cases h

theorem hardLink_of_linkable {source target i : List ν} (hs : d.node source = some (.file i))
    (hblocked : d.blocked target = none) (ht : d.node target = none) :
    d.hardLink refuses source target =
      match refuses d (.link source target) with
      | some what => .error (.refused what)
      | none => .ok (d.addName target (.file i) ht
          (fun j hj => Or.inr (by cases hj; exact d.first source i hs))) := by
  rw [hardLink]
  split
  · rename_i hnode
    rw [hs] at hnode
    cases hnode
  · rename_i hnode
    rw [hs] at hnode
    cases hnode
  · rename_i j hnode
    rw [hs] at hnode
    cases hnode
    rw [hblocked]
    simp only []
    split
    · rename_i hnode
      rw [ht] at hnode
      cases hnode
    · rfl

omit [DecidableEq ν] in
theorem linkable_of_unlinked {source target : List ν} (h : d.unlinked source target = none) :
    (∃ i, d.node source = some (.file i)) ∧ d.blocked target = none ∧ d.node target = none := by
  rw [unlinked] at h
  cases hs : d.node source with
  | none =>
    rw [hs] at h
    cases h
  | some n =>
    rw [hs] at h
    cases n with
    | dir => cases h
    | file i =>
      simp only [] at h
      cases hblocked : d.blocked target with
      | some e =>
        rw [hblocked] at h
        cases h
      | none =>
        rw [hblocked] at h
        cases ht : d.node target with
        | none => exact ⟨⟨i, rfl⟩, rfl, rfl⟩
        | some n =>
          rw [ht] at h
          cases h

end Cases

/-! ## Where nothing forbidden is done -/

omit [DecidableEq ν] in
theorem Alike.refl (d : Disk ν) : Alike d d := ⟨rfl, rfl⟩

omit [DecidableEq ν] in
theorem Alike.blocked {d d' : Disk ν} (h : Alike d d') (p : List ν) : d'.blocked p = d.blocked p := by
  have hfile : d'.isFile = d.isFile := by
    funext q
    rw [isFile, isFile, h.node]
  rw [Disk.blocked, Disk.blocked, hfile, h.node]

omit [DecidableEq ν] in
theorem Alike.unlinked {d d' : Disk ν} (h : Alike d d') (source target : List ν) :
    d'.unlinked source target = d.unlinked source target := by
  rw [Disk.unlinked, Disk.unlinked, h.node, h.blocked]

theorem Alike.setMode {d d' : Disk ν} (h : Alike d d') (p : List ν) (mode : Nat) :
    Alike d (d'.setMode p mode) :=
  ⟨by rw [setMode_node, h.node], by rw [setMode_data, h.data]⟩

theorem Alike.addName {d d' : Disk ν} (h : Alike d d') {p : List ν} {n : Node ν}
    {hfree : d.node p = none} {hfree' : d'.node p = none}
    {hn : ∀ i, n = .file i → i = p ∨ d.node i = some (.file i)}
    {hn' : ∀ i, n = .file i → i = p ∨ d'.node i = some (.file i)} :
    Alike (d.addName p n hfree hn) (d'.addName p n hfree' hn') := by
  refine ⟨?_, h.data⟩
  funext q
  show (if q = p then _ else d'.node q) = if q = p then _ else d.node q
  rw [h.node]

theorem Alike.store {d d' : Disk ν} (h : Alike d d') (i : List ν) (bytes : List UInt8) :
    Alike (d.store i bytes) (d'.store i bytes) := by
  refine ⟨h.node, ?_⟩
  funext j
  show (if j = i then _ else d'.data j) = if j = i then _ else d.data j
  rw [h.data]

section Unprivileged

variable {refuses : Refusals ν} (hrefuses : Unprivileged refuses)

include hrefuses

theorem mkdirFrom_alike : ∀ (rest made : List ν) (d d' : Disk ν), Alike d d' → Kempt d' →
    (∀ r, r ≠ [] → r <+: rest → d'.node (made ++ r) = none →
      d'.closed (made ++ r).dropLast = false) →
      Alike (mkdirFrom freely made rest d).1 (mkdirFrom refuses made rest d').1 ∧
        (mkdirFrom refuses made rest d').2 = (mkdirFrom freely made rest d).2 := by
  intro rest
  induction rest with
  | nil =>
    intro made d d' h _ _
    exact ⟨h, rfl⟩
  | cons c rest ih =>
    intro made d d' h hkempt hopen
    -- What is asked below has not become closed.
    have hnext : ∀ d'' : Disk ν, Grows d' d'' → ∀ r, r ≠ [] → r <+: rest →
        d''.node (made ++ [c] ++ r) = none → d''.closed (made ++ [c] ++ r).dropLast = false := by
      intro d'' hgrows r _ hr hmissing
      rw [List.append_assoc] at hmissing ⊢
      rw [hgrows.closed_eq hkempt]
      exact hopen (c :: r) (List.cons_ne_nil _ _) (List.cons_prefix_cons.mpr ⟨rfl, hr⟩)
        (hgrows.missing hmissing)
    cases hnode : d.node (made ++ [c]) with
    | none =>
      have hnode' : d'.node (made ++ [c]) = none := by rw [h.node, hnode]
      have hallowed : refuses d' (.mkdir (made ++ [c])) = none :=
        (hrefuses d' _).mpr (hopen [c] (List.cons_ne_nil _ _)
          (List.cons_prefix_cons.mpr ⟨rfl, List.nil_prefix⟩) hnode')
      rw [mkdirFrom_of_missing hnode, mkdirFrom_of_missing hnode', hallowed]
      have hgrows := addName_grows d' (made ++ [c]) .dir hnode' (fun i hi => by cases hi)
      exact ih _ _ _ h.addName (hgrows.kempt hkempt) (hnext _ hgrows)
    | some n =>
      have hnode' : d'.node (made ++ [c]) = some n := by rw [h.node, hnode]
      cases n with
      | dir =>
        rw [mkdirFrom_of_dir hnode, mkdirFrom_of_dir hnode']
        exact ih _ d d' h hkempt (hnext d' (Grows.refl d'))
      | file i =>
        rw [mkdirFrom_of_file hnode, mkdirFrom_of_file hnode']
        exact ⟨h, rfl⟩

variable {d d' : Disk ν} (h : Alike d d')

include h

/-- Directories are made that lie in no closed one. -/
theorem mkdirAll_alike (hkempt : Kempt d') {p : List ν}
    (hopen : ∀ q, q ≠ [] → q <+: p → d'.node q = none → d'.closed q.dropLast = false) :
    Alike (d.mkdirAll freely p).1 (d'.mkdirAll refuses p).1 ∧
      (d'.mkdirAll refuses p).2 = (d.mkdirAll freely p).2 :=
  mkdirFrom_alike hrefuses p [] d d' h hkempt hopen

/-- A file is made that lies in no closed directory, or is written that may be. -/
theorem create_alike {p : List ν} (hmissing : d'.node p = none → d'.closed p.dropLast = false)
    (hthere : ∀ i, d'.node p = some (.file i) → d'.readOnly i = false) :
    (∃ e, d.create freely p = .error e ∧ d'.create refuses p = .error e) ∨
      ∃ i made made', d.create freely p = .ok (i, made) ∧ d'.create refuses p = .ok (i, made') ∧
        Alike made made' := by
  cases hblocked : d.blocked p with
  | some e =>
    left
    refine ⟨e, ?_, ?_⟩
    · rw [create, hblocked]
    · rw [create, h.blocked, hblocked]
  | none =>
    have hblocked' : d'.blocked p = none := by rw [h.blocked, hblocked]
    cases hnode : d.node p with
    | none =>
      have hnode' : d'.node p = none := by rw [h.node, hnode]
      have hallowed : refuses d' (.create p) = none := by
        refine (hrefuses d' _).mpr ?_
        rw [forbids, hnode']
        exact hmissing hnode'
      right
      rw [create_of_missing hblocked hnode, create_of_missing hblocked' hnode', hallowed]
      exact ⟨p, _, _, rfl, rfl, h.addName.store p []⟩
    | some n =>
      have hnode' : d'.node p = some n := by rw [h.node, hnode]
      cases n with
      | dir => exact Or.inl ⟨_, create_of_dir hblocked hnode, create_of_dir hblocked' hnode'⟩
      | file i =>
        have hallowed : refuses d' (.create p) = none := by
          refine (hrefuses d' _).mpr ?_
          rw [forbids, hnode']
          exact hthere i hnode'
        right
        rw [create_of_file hblocked hnode, create_of_file hblocked' hnode', hallowed]
        exact ⟨i, _, _, rfl, rfl, h.store i []⟩

/-- A file gets another name in a directory that is not closed. -/
theorem hardLink_alike (source : List ν) {target : List ν}
    (hmissing : d'.node target = none → d'.closed target.dropLast = false) :
    (∃ e, d.hardLink freely source target = .error e ∧
        d'.hardLink refuses source target = .error e) ∨
      ∃ linked linked', d.hardLink freely source target = .ok linked ∧
        d'.hardLink refuses source target = .ok linked' ∧ Alike linked linked' := by
  cases hwhy : d.unlinked source target with
  | some e =>
    exact Or.inl ⟨e, hardLink_of_unlinked hwhy,
      hardLink_of_unlinked (by rw [h.unlinked, hwhy])⟩
  | none =>
    obtain ⟨⟨i, hs⟩, hblocked, ht⟩ := linkable_of_unlinked hwhy
    have hs' : d'.node source = some (.file i) := by rw [h.node, hs]
    have hblocked' : d'.blocked target = none := by rw [h.blocked, hblocked]
    have ht' : d'.node target = none := by rw [h.node, ht]
    have hallowed : refuses d' (.link source target) = none := (hrefuses d' _).mpr (hmissing ht')
    right
    rw [hardLink_of_linkable hs hblocked ht, hardLink_of_linkable hs' hblocked' ht', hallowed]
    exact ⟨_, _, rfl, rfl, h.addName⟩

end Unprivileged

/-! ## What stays missing -/

/-- The path is missing, and its directory is closed. -/
structure Lost (d : Disk ν) (q : List ν) : Prop where
  missing : d.node q = none
  closed : d.closed q.dropLast = true

omit [DecidableEq ν] in
theorem Lost.grows {d d' : Disk ν} {q : List ν} (h : Lost d q) (hgrows : Grows d d')
    (hmissing : d'.node q = none) : Lost d' q := by
  obtain ⟨hdir, mode, hmode, hclosed⟩ := closed_iff.mp h.closed
  refine ⟨hmissing, closed_iff.mpr ⟨hgrows.node _ _ hdir, mode, ?_, hclosed⟩⟩
  rw [hgrows.mode]
  exact hmode

theorem Lost.store {d : Disk ν} {q : List ν} (h : Lost d q) (i : List ν) (bytes : List UInt8) :
    Lost (d.store i bytes) q := ⟨h.missing, h.closed⟩

theorem Lost.setMode {d : Disk ν} {q p : List ν} (h : Lost d q) (hp : p ≠ q.dropLast)
    (mode : Nat) : Lost (d.setMode p mode) q := by
  obtain ⟨hdir, mode', hmode, hclosed⟩ := closed_iff.mp h.closed
  refine ⟨by rw [setMode_node]; exact h.missing, closed_iff.mpr ⟨?_, mode', ?_, hclosed⟩⟩
  · rw [setMode_node]
    exact hdir
  · rw [setMode_mode, if_neg (fun heq => hp (inode_eq_dir hdir heq))]
    exact hmode

section Lost

variable {refuses : Refusals ν} (hrefuses : Unprivileged refuses) {q : List ν}

include hrefuses

theorem Lost.mkdirFrom : ∀ (rest made : List ν) (d : Disk ν), Lost d q →
    Lost (mkdirFrom refuses made rest d).1 q := by
  intro rest
  induction rest with
  | nil =>
    intro made d h
    exact h
  | cons c rest ih =>
    intro made d h
    cases hnode : d.node (made ++ [c]) with
    | none =>
      rw [mkdirFrom_of_missing hnode]
      split
      · exact h
      · rename_i hallowed
        have hopen : d.closed (made ++ [c]).dropLast = false := (hrefuses d _).mp hallowed
        have hne : q ≠ made ++ [c] := by
          intro heq
          rw [← heq, h.closed] at hopen
          cases hopen
        refine ih _ _ (h.grows (addName_grows d _ _ _ _) ?_)
        show (if q = made ++ [c] then _ else d.node q) = none
        rw [if_neg hne]
        exact h.missing
    | some n =>
      cases n with
      | dir =>
        rw [mkdirFrom_of_dir hnode]
        exact ih _ d h
      | file i =>
        rw [mkdirFrom_of_file hnode]
        exact h

variable {d d' : Disk ν} (h : Lost d q)

include h

theorem Lost.mkdirAll (p : List ν) : Lost (d.mkdirAll refuses p).1 q :=
  Lost.mkdirFrom hrefuses p [] d h

theorem Lost.create {p i : List ν} (hok : d.create refuses p = .ok (i, d')) : Lost d' q := by
  refine h.grows (create_grows hok) ?_
  have hw := create_wrote hok []
  have hnode : d'.node q = if q = p then some (.file i) else d.node q := hw.node q
  rw [hnode]
  by_cases hq : q = p
  · exfalso
    rw [hq] at h
    cases hblocked : d.blocked p with
    | some e =>
      rw [Disk.create, hblocked] at hok
      cases hok
    | none =>
      have hforbid : refuses d (.create p) ≠ none := by
        intro hnone
        have hopen := (hrefuses d _).mp hnone
        rw [forbids, h.missing] at hopen
        simp only [] at hopen
        rw [h.closed] at hopen
        cases hopen
      obtain ⟨what, hwhat⟩ := Option.ne_none_iff_exists'.mp hforbid
      rw [create_of_missing hblocked h.missing, hwhat] at hok
      cases hok
  · rw [if_neg hq]
    exact h.missing

theorem Lost.hardLink {source target : List ν} (hok : d.hardLink refuses source target = .ok d') :
    Lost d' q := by
  refine h.grows (hardLink_grows hok) ?_
  obtain ⟨i, hlinked⟩ := hardLink_linked hok
  rw [hlinked.node]
  by_cases hq : q = target
  · exfalso
    rw [hq] at h
    have hforbid : refuses d (.link source target) ≠ none := by
      intro hnone
      have hopen : d.closed target.dropLast = false := (hrefuses d _).mp hnone
      rw [h.closed] at hopen
      cases hopen
    obtain ⟨what, hwhat⟩ := Option.ne_none_iff_exists'.mp hforbid
    cases hwhy : d.unlinked source target with
    | some e =>
      rw [hardLink_of_unlinked hwhy] at hok
      cases hok
    | none =>
      obtain ⟨⟨j, hs⟩, hblocked, ht⟩ := linkable_of_unlinked hwhy
      rw [hardLink_of_linkable hs hblocked ht, hwhat] at hok
      cases hok
  · rw [if_neg hq]
    exact h.missing

end Lost

end Disk

end Lib
end ZvolRescue
