import ZvolRescue.Files.Manifest
import ZvolRescue.Files.Tree
import ZvolRescue.Lib.Paths

/-!
# Where an extraction writes

The names of a tree are not to be trusted with the shape of the directory they are written into.
Whatever they are, all that an extraction creates, writes or links lies below its output
directory (`extraction_inside`).
-/

namespace ZvolRescue
namespace Files

open Lib Lib.Paths Zpl

/-! ## Joining -/

/-- Push the parts of a path, but for those that are empty or a dot. -/
def pushParts : (out : List UInt8) → List (List UInt8) → Option (List UInt8)
  | out, [] => some out
  | out, part :: rest =>
    if part = [] ∨ part = [46] then pushParts out rest
    else if part = [46, 46] then none
    else if (0 : UInt8) ∈ part then none
    else pushParts (push out part) rest

/-- A path from the dataset below the output directory.  A path that leaves the root unchanged is
no file. -/
def safeJoinIn (root path : List UInt8) : Option (List UInt8) :=
  if path.head? = some 47 then none
  else
    match pushParts root (path.splitOn 47) with
    | none => none
    | some out => if Paths.components out = Paths.components root then none else some out

/-- What is pushed are names. -/
theorem pushParts_names {parts : List (List UInt8)} (hslash : ∀ part ∈ parts, (47 : UInt8) ∉ part)
    {out out' : List UInt8} (h : pushParts out parts = some out') :
    ∃ names, (∀ name ∈ names, IsName name) ∧
      names = parts.filter (fun part => part ≠ [] ∧ part ≠ [46]) ∧
      Paths.components out' = Paths.components out ++ names.map .normal := by
  induction parts generalizing out with
  | nil =>
    cases h
    exact ⟨[], fun name hname => absurd hname List.not_mem_nil, rfl, (List.append_nil _).symm⟩
  | cons part rest ih =>
    have hrest := fun part hpart => hslash part (List.mem_cons_of_mem _ hpart)
    rw [pushParts] at h
    by_cases hskip : part = [] ∨ part = [46]
    · rw [if_pos hskip] at h
      obtain ⟨names, hnames, hfilter, hcomponents⟩ := ih hrest h
      refine ⟨names, hnames, ?_, hcomponents⟩
      rw [List.filter_cons_of_neg (by simpa [or_iff_not_imp_left] using hskip), hfilter]
    rw [if_neg hskip] at h
    rw [not_or] at hskip
    by_cases hdots : part = [46, 46]
    · rw [if_pos hdots] at h
      cases h
    rw [if_neg hdots] at h
    by_cases hnul : (0 : UInt8) ∈ part
    · rw [if_pos hnul] at h
      cases h
    rw [if_neg hnul] at h
    have hname : IsName part :=
      { ne_nil := hskip.1
        ne_dot := hskip.2
        ne_dots := hdots
        slash := hslash part List.mem_cons_self
        nul := hnul }
    obtain ⟨names, hnames, hfilter, hcomponents⟩ := ih hrest h
    refine ⟨part :: names, List.forall_mem_cons.mpr ⟨hname, hnames⟩, ?_, ?_⟩
    · rw [List.filter_cons_of_pos (by simpa using hskip), hfilter]
    · rw [hcomponents, components_push hname, List.append_assoc]
      rfl

/-- A path is refused for a part that climbs, or that no name can have. -/
theorem pushParts_eq_none {parts : List (List UInt8)} {out : List UInt8} :
    pushParts out parts = none ↔
      (parts.filter (fun part => part ≠ [] ∧ part ≠ [46])).any
        (fun part => part = [46, 46] ∨ (0 : UInt8) ∈ part) = true := by
  induction parts generalizing out with
  | nil => simp [pushParts]
  | cons part rest ih =>
    rw [pushParts]
    by_cases hskip : part = [] ∨ part = [46]
    · rw [if_pos hskip, ih, List.filter_cons_of_neg (by simpa [or_iff_not_imp_left] using hskip)]
    rw [if_neg hskip]
    rw [not_or] at hskip
    rw [List.filter_cons_of_pos (by simpa using hskip), List.any_cons, Bool.or_eq_true,
      decide_eq_true_iff]
    by_cases hdots : part = [46, 46]
    · rw [if_pos hdots]
      exact iff_of_true rfl (Or.inl (Or.inl hdots))
    by_cases hnul : (0 : UInt8) ∈ part
    · rw [if_neg hdots, if_pos hnul]
      exact iff_of_true rfl (Or.inl (Or.inr hnul))
    · rw [if_neg hdots, if_neg hnul, ih, or_iff_right (not_or.mpr ⟨hdots, hnul⟩)]

/-- What is joined lies below the root. -/
theorem safeJoinIn_below {root path dest : List UInt8} (h : safeJoinIn root path = some dest) :
    StrictlyBelow (Paths.components root) (Paths.components dest) := by
  rw [safeJoinIn] at h
  split at h
  · cases h
  cases hpush : pushParts root (path.splitOn 47) with
  | none =>
    rw [hpush] at h
    cases h
  | some out =>
    rw [hpush] at h
    simp only at h
    split at h
    · cases h
    rename_i hmoved
    cases h
    obtain ⟨names, hnames, -, hcomponents⟩ := pushParts_names (slash_notMem_splitOn path) hpush
    refine ⟨names, fun hnil => hmoved ?_, hnames, hcomponents⟩
    rw [hcomponents, hnil, List.map_nil, List.append_nil]

/-- Where a path lies below the output directory is where it lies below the root of the disk. -/
theorem safeJoinIn_eq (root path : List UInt8) :
    (safeJoinIn root path).map Paths.components =
      (safeJoin path).map (fun p => Paths.components root ++ p.map .normal) := by
  rw [safeJoinIn, safeJoin]
  by_cases habsolute : path.head? = some 47
  · rw [if_pos habsolute, if_pos habsolute]
    rfl
  rw [if_neg habsolute, if_neg habsolute]
  by_cases hbad : (components path).any (fun part => part = [46, 46] ∨ (0 : UInt8) ∈ part) = true
  · rw [if_pos hbad, pushParts_eq_none.mpr hbad]
    rfl
  rw [if_neg hbad]
  cases hpush : pushParts root (path.splitOn 47) with
  | none => exact absurd (pushParts_eq_none.mp hpush) hbad
  | some out =>
    obtain ⟨names, -, hfilter, hcomponents⟩ := pushParts_names (slash_notMem_splitOn path) hpush
    have hparts : components path = names := hfilter.symm
    simp only [hcomponents, hparts]
    by_cases hnil : names = []
    · rw [if_pos hnil, if_pos (by rw [hnil, List.map_nil, List.append_nil])]
      rfl
    · have hmoved : ¬ Paths.components root ++ names.map .normal = Paths.components root := by
        intro hsame
        exact hnil (List.map_eq_nil_iff.mp (List.append_right_eq_self.mp hsame))
      rw [if_neg hnil, if_neg hmoved, Option.map_some, Option.map_some, hcomponents]

/-! ## What is touched -/

/-- What an extraction asks of the system, by the components of the paths. -/
inductive Op where
  /-- A directory with all that is missing above it. -/
  | createDirAll (q : List Component)
  /-- A file, made or emptied. -/
  | create (q : List Component)
  | hardLink (from_ dest : List Component)
  | setMode (q : List Component)
  deriving DecidableEq, Repr

/-- The paths that it creates, writes or links, by what is there already. -/
def Op.touched (there : List Component → Bool) : Op → List (List Component)
  | createDirAll q => q.inits.filter (fun p => !there p)
  | create q => [q]
  | hardLink from_ dest => [from_, dest]
  | setMode q => [q]

section Trace

variable (s : Setting) (fs : Filesystem) (root : List UInt8)

/-- The permissions of what was written, if they are to be preserved. -/
def modeOps (t : State) (e : Entry) (dest : List UInt8) : List Op :=
  if "mode" ∈ s.preserve ∧ ((extractEntry s fs t e).files.getLast?.bind Extracted.error) = none then
    [.setMode (Paths.components dest)]
  else []

/-- What is asked for one entry.  The object of a file is looked up before the file is made. -/
def opsOf (t : State) (e : Entry) : List Op :=
  match e.znode with
  | none => []
  | some z =>
    match safeJoinIn root e.rawPath with
    | none => []
    | some dest =>
      match z.fileType with
      | .dir => .createDirAll (Paths.components dest) :: modeOps s fs t e dest
      | .symlink =>
        match fs.symlinkTarget e.object z with
        | .error _ => []
        | .ok _ => .create (Paths.components dest) :: modeOps s fs t e dest
      | .regular =>
        ((parent (Paths.components dest)).map Op.createDirAll).toList ++
          match t.writtenObjects.lookup e.object with
          | some first =>
            match safeJoinIn root first.rawPath with
            | none => []
            | some source => [.hardLink (Paths.components source) (Paths.components dest)]
          | none =>
            match fs.object e.object with
            | .error _ => []
            | .ok _ => .create (Paths.components dest) :: modeOps s fs t e dest
      | _ => []

/-- What is asked for the entries one after another. -/
def opsFrom : State → List Entry → List Op
  | _, [] => []
  | t, e :: es => opsOf s fs root t e ++ opsFrom (extractEntry s fs t e) es

/-- What a run asks for that is interrupted after so many entries. -/
def runOps (paths : List (List UInt8)) (disk : Disk (List UInt8)) (reached : Nat) : List Op :=
  match entries fs paths with
  | .error _ => []
  | .ok es => opsFrom s fs root (start disk) (es.take reached)

end Trace

/-! ## Everything lies below the output directory -/

section Inside

variable {r : List Component} {there : List Component → Bool}

/-- Names below the root, or the root itself. -/
def Under (r q : List Component) : Prop :=
  ∃ names : List (List UInt8), (∀ name ∈ names, IsName name) ∧ q = r ++ names.map .normal

/-- What a directory is made of is below the root where the root is there. -/
theorem strictlyBelow_of_missing (hthere : ∀ q, q <+: r → there q = true) {q p : List Component}
    (hq : Under r q) (hp : p <+: q) (hmissing : there p = false) : StrictlyBelow r p := by
  obtain ⟨names, hnames, rfl⟩ := hq
  have habove : ¬ p <+: r := by
    intro h
    rw [hthere p h] at hmissing
    cases hmissing
  obtain ⟨rest, rfl⟩ :=
    (List.prefix_or_prefix_of_prefix hp (List.prefix_append r _)).resolve_left habove
  have hrest : rest <+: names.map Component.normal := (List.prefix_append_right_inj r).mp hp
  have htake : rest = (names.take rest.length).map .normal := by
    rw [List.map_take]
    exact List.prefix_iff_eq_take.mp hrest
  refine ⟨names.take rest.length, fun hnil => habove ?_, ?_, by rw [← htake]⟩
  · rw [htake, hnil, List.map_nil, List.append_nil]
  · exact fun name hname => hnames name (List.mem_of_mem_take hname)

theorem parent_under {q d : List Component} (hq : StrictlyBelow r q) (h : parent q = some d) :
    Under r d := by
  obtain ⟨names, hne, hnames, rfl⟩ := hq
  obtain ⟨front, last, rfl⟩ : ∃ front last, names = front ++ [last] :=
    ⟨_, _, (List.dropLast_append_getLast hne).symm⟩
  refine ⟨front, fun name hname => hnames name (List.mem_append_left _ hname), ?_⟩
  rw [List.map_append, List.map_singleton, ← List.append_assoc, parent, List.getLast?_concat] at h
  simp only [List.dropLast_concat, Option.some.injEq] at h
  exact h.symm

theorem Under.of_below {q : List Component} (h : StrictlyBelow r q) : Under r q := by
  obtain ⟨names, -, hnames, hq⟩ := h
  exact ⟨names, hnames, hq⟩

/-- All that these ask for lies below the root. -/
def Inside (there : List Component → Bool) (r : List Component) (ops : List Op) : Prop :=
  ∀ op ∈ ops, ∀ q ∈ op.touched there, StrictlyBelow r q

theorem inside_nil : Inside there r [] := fun _ hop => absurd hop List.not_mem_nil

theorem Inside.cons {op : Op} {ops : List Op} (hop : ∀ q ∈ op.touched there, StrictlyBelow r q)
    (hops : Inside there r ops) : Inside there r (op :: ops) := List.forall_mem_cons.mpr ⟨hop, hops⟩

theorem Inside.append {ops ops' : List Op} (h : Inside there r ops) (h' : Inside there r ops') :
    Inside there r (ops ++ ops') := List.forall_mem_append.mpr ⟨h, h'⟩

theorem forall_mem_one {q : List Component} (hq : StrictlyBelow r q) :
    ∀ p ∈ [q], StrictlyBelow r p := by
  intro p hp
  rwa [List.mem_singleton.mp hp]

theorem hardLink_inside {source q : List Component} (hsource : StrictlyBelow r source)
    (hq : StrictlyBelow r q) : ∀ p ∈ (Op.hardLink source q).touched there, StrictlyBelow r p := by
  intro p hp
  rcases List.mem_pair.mp hp with rfl | rfl
  · exact hsource
  · exact hq

theorem createDirAll_inside (hthere : ∀ q, q <+: r → there q = true) {q : List Component}
    (hq : Under r q) : ∀ p ∈ (Op.createDirAll q).touched there, StrictlyBelow r p := by
  intro p hp
  obtain ⟨habove, hmissing⟩ := List.mem_filter.mp hp
  exact strictlyBelow_of_missing hthere hq ((List.mem_inits _ _).mp habove)
    (by simpa using hmissing)

variable (s : Setting) (fs : Filesystem) (root : List UInt8)

theorem modeOps_inside {t : State} {e : Entry} {dest : List UInt8}
    (hdest : StrictlyBelow r (Paths.components dest)) :
    Inside there r (modeOps s fs t e dest) := by
  unfold modeOps
  split
  · exact inside_nil.cons (forall_mem_one hdest)
  · exact inside_nil

/-- Whatever the state of a run, one entry is written below the root. -/
theorem opsOf_inside (hthere : ∀ q, q <+: Paths.components root → there q = true) (t : State)
    (e : Entry) : Inside there (Paths.components root) (opsOf s fs root t e) := by
  unfold opsOf
  cases e.znode with
  | none => exact inside_nil
  | some z =>
    cases hjoin : safeJoinIn root e.rawPath with
    | none => exact inside_nil
    | some dest =>
      have hdest := safeJoinIn_below hjoin
      have hmode : Inside there (Paths.components root) (modeOps s fs t e dest) :=
        modeOps_inside s fs hdest
      have hparents : Inside there (Paths.components root)
          ((parent (Paths.components dest)).map Op.createDirAll).toList := by
        cases hparent : parent (Paths.components dest) with
        | none => exact inside_nil
        | some d => exact inside_nil.cons (createDirAll_inside hthere (parent_under hdest hparent))
      simp only
      split
      · exact hmode.cons (createDirAll_inside hthere (.of_below hdest))
      · split
        · exact inside_nil
        · exact hmode.cons (forall_mem_one hdest)
      · refine hparents.append ?_
        split
        · split
          · exact inside_nil
          · rename_i source hsource
            exact inside_nil.cons (hardLink_inside (safeJoinIn_below hsource) hdest)
        · split
          · exact inside_nil
          · exact hmode.cons (forall_mem_one hdest)
      · exact inside_nil

theorem opsFrom_inside (hthere : ∀ q, q <+: Paths.components root → there q = true) :
    ∀ (es : List Entry) (t : State), Inside there (Paths.components root)
      (opsFrom s fs root t es) := by
  intro es
  induction es with
  | nil => exact fun _ => inside_nil
  | cons e es ih =>
    intro t
    exact (opsOf_inside s fs root hthere t e).append (ih _)

/-- Whatever the tree holds and whichever paths are asked for, what an extraction creates, writes
or links lies strictly below the output directory, which is there. -/
theorem extraction_inside (hthere : ∀ q, q <+: Paths.components root → there q = true)
    (paths : List (List UInt8)) (disk : Disk (List UInt8)) (reached : Nat) :
    ∀ op ∈ runOps s fs root paths disk reached, ∀ q ∈ op.touched there,
      StrictlyBelow (Paths.components root) q := by
  unfold runOps
  cases entries fs paths with
  | error e => exact inside_nil
  | ok es => exact opsFrom_inside s fs root hthere (es.take reached) (start disk)

/-- The name of a file has slashes and a dot in it. -/
theorem extraction_inside_slashes :
    runOps plain (alone "b/./c") [111] [] (Disk.existing empty) 1 =
        [.createDirAll [.normal [111], .normal [98]],
          .create [.normal [111], .normal [98], .normal [99]]] ∧
      ∀ op ∈ runOps plain (alone "b/./c") [111] [] (Disk.existing empty) 1,
        ∀ q ∈ op.touched (fun q => decide (q <+: Paths.components [111])),
          StrictlyBelow (Paths.components [111]) q :=
  ⟨by decide, extraction_inside plain (alone "b/./c") [111] (fun _ hq => decide_eq_true hq) []
    (Disk.existing empty) 1⟩

end Inside

end Files
end ZvolRescue
