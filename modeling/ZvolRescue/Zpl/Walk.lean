import ZvolRescue.Lib.Dfs
import ZvolRescue.Zpl.Tree

/-!
# What a walk of the directories tells

`walkInto` is a depth-first walk of the graph of the directories.  It reads each directory once
and tells each of its names once, whatever the graph; what it leaves out lies at or below the
end of a trail of more than `maxDepth` directories (`walk_tells`).
-/

namespace ZvolRescue
namespace Zpl

open Lib

/-- A directory as the walk comes to it. -/
structure Visit where
  object : Nat
  pathPrefix : String
  rawPrefix : List UInt8

namespace Filesystem

variable (fs : Filesystem)

/-- What is told of one directory: its names, or why it cannot be read. -/
def report (v : Visit) : List Entry :=
  match fs.readDir v.object with
  | .error e =>
    [{ path := v.pathPrefix, rawPath := v.rawPrefix, object := v.object, znode := none
       error := some s!"directory: {e.text}" }]
  | .ok entries => entries.map (fs.entryOf v.pathPrefix v.rawPrefix)

/-- A name of a directory, visited. -/
def visitOf (pathPrefix : String) (rawPrefix : List UInt8) (e : DirEntry) : Visit :=
  { object := e.object
    pathPrefix := joinPath pathPrefix e.name
    rawPrefix := joinRaw rawPrefix e.raw }

/-- The directories that are named in a directory. -/
def subdirs (v : Visit) : List Visit :=
  ((fs.children v.object).filter fs.isDir).map (visitOf v.pathPrefix v.rawPrefix)

/-- These names lead from a directory to another, or to itself. -/
def RouteTo (start : Nat) (path : List (List UInt8)) (dir : Nat) : Prop :=
  path = [] ∧ dir = start ∨ ∃ e, fs.Below start path e ∧ fs.isDir e = true ∧ e.object = dir

/-- The walk reads each directory once, tells the names of each directory that it reads once
under the names that lead to it, and reads every directory below its start but those of
`Beyond`. -/
def Tells (start : Nat) (pathPrefix : String) (rawPrefix : List UInt8) (Beyond : Nat → Prop) :
    Prop :=
  ∃ visits : List Visit,
    (fs.walkInto true (maxDepth + 1) start pathPrefix rawPrefix
      { seenDirs := [], out := [] }).seenDirs = visits.map Visit.object ∧
    (visits.map Visit.object).Nodup ∧
    (∀ v ∈ visits, ∃ path, fs.RouteTo start path v.object ∧
      v.rawPrefix = path.foldl joinRaw rawPrefix) ∧
    (fs.walkFrom start pathPrefix rawPrefix true).Perm (visits.flatMap fs.report) ∧
    ∀ dir, fs.DirAt start dir → dir ∈ visits.map Visit.object ∨ Beyond dir

/-- At or below a directory to which a chain of more than `maxDepth` directories leads, none of
them twice. -/
def Beyond (start dir : Nat) : Prop :=
  ∃ ks deep, ks.length = maxDepth + 1 ∧ Trail Visit.object fs.subdirs start ks deep ∧
    fs.DirAt deep dir

variable {fs}

/-! ## The walk is a depth-first walk -/

variable (fs) in
/-- From `w` to `w'` the walk tells `own` and what is visited from `t` to `t'`. -/
structure Adds (own : List Entry) (w w' : Walked) (t t' : Trip Visit) : Prop where
  seen : w'.seenDirs = t'.keys Visit.object
  told : ∃ new out, t'.visited = t.visited ++ new ∧ w'.out = w.out ++ out ∧
    out.Perm (own ++ new.flatMap fs.report)

theorem Adds.none {w : Walked} {t : Trip Visit} (h : w.seenDirs = t.keys Visit.object)
    (v : Visit) : fs.Adds [] w w t (t.refuse v) where
  seen := h
  told := ⟨[], [], (List.append_nil _).symm, (List.append_nil _).symm, List.Perm.nil⟩

/-- What one name and the walk below it add, before what the rest adds. -/
theorem Adds.cons {own : List Entry} {entry : Entry} {w met w' : Walked} {t t' t'' : Trip Visit}
    {w'' : Walked} (hmet : met.out = w.out ++ [entry]) (h : fs.Adds [] met w' t t')
    (h' : fs.Adds own w' w'' t' t'') : fs.Adds (entry :: own) w w'' t t'' := by
  obtain ⟨new, out, hvisited, hout, hperm⟩ := h.told
  obtain ⟨new', out', hvisited', hout', hperm'⟩ := h'.told
  refine ⟨h'.seen, new ++ new', entry :: (out ++ out'), ?_, ?_, ?_⟩
  · rw [hvisited', hvisited, List.append_assoc]
  · rw [hout', hout, hmet, List.append_assoc, List.append_assoc]
    rfl
  · rw [List.cons_append, List.flatMap_append]
    apply List.Perm.cons
    rw [List.nil_append] at hperm
    calc (out ++ out').Perm (new.flatMap fs.report ++ (own ++ new'.flatMap fs.report)) :=
          hperm.append hperm'
      _ = (new.flatMap fs.report ++ own) ++ new'.flatMap fs.report :=
          (List.append_assoc _ _ _).symm
      List.Perm _ ((own ++ new.flatMap fs.report) ++ new'.flatMap fs.report) :=
          List.perm_append_comm.append_right _
      _ = own ++ (new.flatMap fs.report ++ new'.flatMap fs.report) := List.append_assoc _ _ _

theorem visitEntries_adds {levels : Nat}
    (ih : ∀ (v : Visit) (w : Walked) (t : Trip Visit), w.seenDirs = t.keys Visit.object →
      fs.Adds [] w (fs.walkInto true levels v.object v.pathPrefix v.rawPrefix w) t
        (dfs Visit.object fs.subdirs levels v t))
    (pathPrefix : String) (rawPrefix : List UInt8) (entries : List DirEntry) :
    ∀ (w : Walked) (t : Trip Visit), w.seenDirs = t.keys Visit.object →
      fs.Adds (entries.map (fs.entryOf pathPrefix rawPrefix)) w
        (fs.visitEntries (fs.walkInto true levels) pathPrefix rawPrefix true entries w) t
        (((entries.filter fs.isDir).map (visitOf pathPrefix rawPrefix)).foldl
          (fun t b => dfs Visit.object fs.subdirs levels b t) t) := by
  induction entries with
  | nil =>
    intro w t h
    exact ⟨h, [], [], (List.append_nil _).symm, (List.append_nil _).symm, List.Perm.nil⟩
  | cons e rest ihrest =>
    intro w t h
    rw [visitEntries, List.map_cons]
    cases hdir : fs.isDir e with
    | false =>
      rw [List.filter_cons_of_neg (by rw [hdir]; exact Bool.false_ne_true), Bool.false_and,
        if_neg Bool.false_ne_true]
      have hfile : fs.Adds [] { w with out := w.out ++ [fs.entryOf pathPrefix rawPrefix e] }
          { w with out := w.out ++ [fs.entryOf pathPrefix rawPrefix e] } t t :=
        ⟨h, [], [], (List.append_nil _).symm, (List.append_nil _).symm, List.Perm.nil⟩
      exact Adds.cons rfl hfile (ihrest _ t h)
    | true =>
      rw [List.filter_cons_of_pos hdir, Bool.true_and, if_pos rfl, List.map_cons,
        List.foldl_cons]
      have hvisit := ih (visitOf pathPrefix rawPrefix e)
        { w with out := w.out ++ [fs.entryOf pathPrefix rawPrefix e] } t h
      exact Adds.cons rfl hvisit (ihrest _ _ hvisit.seen)

/-- What a walk does is what the depth-first walk of the graph visits. -/
theorem walkInto_adds : ∀ (levels : Nat) (v : Visit) (w : Walked) (t : Trip Visit),
    w.seenDirs = t.keys Visit.object →
      fs.Adds [] w (fs.walkInto true levels v.object v.pathPrefix v.rawPrefix w) t
        (dfs Visit.object fs.subdirs levels v t) := by
  intro levels
  induction levels with
  | zero =>
    intro v w t h
    exact Adds.none h v
  | succ levels ih =>
    intro v w t h
    rw [walkInto, dfs]
    by_cases hseen : v.object ∈ w.seenDirs
    · rw [if_pos hseen, if_pos (h ▸ hseen)]
      exact Adds.none h v
    · rw [if_neg hseen, if_neg (h ▸ hseen)]
      have hvisit : w.seenDirs ++ [v.object] = (t.visit v).keys Visit.object := by
        rw [h, Trip.keys, Trip.keys, Trip.visit, List.map_append, List.map_singleton]
      cases hread : fs.readDir v.object with
      | error err =>
        have hnone : fs.subdirs v = [] := by
          rw [subdirs, children, hread]
          rfl
        rw [hnone]
        refine ⟨hvisit, [v], _, rfl, rfl, ?_⟩
        rw [List.nil_append, List.flatMap_singleton, report, hread]
      | ok entries =>
        rw [subdirs, children_of_ok hread]
        have hentries := visitEntries_adds ih v.pathPrefix v.rawPrefix entries
          { w with seenDirs := w.seenDirs ++ [v.object] } (t.visit v) hvisit
        obtain ⟨new, out, hvisited, hout, hperm⟩ := hentries.told
        refine ⟨hentries.seen, v :: new, out, ?_, hout, ?_⟩
        · rw [hvisited, Trip.visit, List.append_assoc]
          rfl
        · rw [List.nil_append, List.flatMap_cons, report, hread]
          exact hperm

/-! ## Where a walk comes to -/

theorem RouteTo.dirAt {start dir : Nat} {path : List (List UInt8)}
    (h : fs.RouteTo start path dir) : fs.DirAt start dir := by
  rcases h with ⟨-, rfl⟩ | ⟨e, he, hdir, rfl⟩
  · exact Or.inl rfl
  · exact Or.inr ⟨path, e, he, hdir, rfl⟩

/-- The names that lead to a directory and then a name in it. -/
theorem RouteTo.below {start dir : Nat} {path : List (List UInt8)} (h : fs.RouteTo start path dir)
    {e : DirEntry} (he : e ∈ fs.children dir) : fs.Below start (path ++ [e.raw]) e := by
  rcases h with ⟨rfl, rfl⟩ | ⟨d, hd, hddir, rfl⟩
  · exact .here he
  · exact hd.append hddir (.here he)

theorem RouteTo.snoc {start dir : Nat} {path : List (List UInt8)} (h : fs.RouteTo start path dir)
    {e : DirEntry} (he : e ∈ fs.children dir) (hdir : fs.isDir e = true) :
    fs.RouteTo start (path ++ [e.raw]) e.object :=
  Or.inr ⟨e, h.below he, hdir, rfl⟩

theorem mem_subdirs {v b : Visit} (h : b ∈ fs.subdirs v) :
    ∃ e ∈ fs.children v.object, fs.isDir e = true ∧ b = visitOf v.pathPrefix v.rawPrefix e := by
  obtain ⟨e, he, rfl⟩ := List.mem_map.mp h
  obtain ⟨hmem, hdir⟩ := List.mem_filter.mp he
  exact ⟨e, hmem, hdir, rfl⟩

/-- The directories that are named do not depend on the path to their own. -/
theorem subdirs_objects {a b : Visit} (h : a.object = b.object) :
    (fs.subdirs a).map Visit.object = (fs.subdirs b).map Visit.object := by
  rw [subdirs, subdirs, List.map_map, List.map_map, h]
  rfl

/-- Whatever is visited is named from the start on, under its path, and not too deep. -/
theorem visited_route {levels start : Nat} {pathPrefix : String} {rawPrefix : List UInt8} :
    ∀ v ∈ (dfs Visit.object fs.subdirs levels
        { object := start, pathPrefix, rawPrefix } Trip.start).visited,
      ∃ path, path.length < levels ∧ fs.RouteTo start path v.object ∧
        v.rawPrefix = path.foldl joinRaw rawPrefix := by
  intro v hv
  have hplaced := dfs_placed
    (P := fun n v => ∃ path, path.length = n ∧ fs.RouteTo start path v.object ∧
      v.rawPrefix = path.foldl joinRaw rawPrefix) ?_ levels
    { object := start, pathPrefix, rawPrefix } Trip.start 0 ⟨[], rfl, Or.inl ⟨rfl, rfl⟩, rfl⟩ v hv
  · rcases hplaced with hold | ⟨m, hm, path, hlength, hroute, hraw⟩
    · cases hold
    · exact ⟨path, by omega, hroute, hraw⟩
  · rintro n a b ⟨path, hlength, hroute, hraw⟩ hb
    obtain ⟨e, he, hdir, rfl⟩ := mem_subdirs hb
    refine ⟨path ++ [e.raw], ?_, hroute.snoc he hdir, ?_⟩
    · rw [List.length_append, hlength, List.length_singleton]
    · rw [List.foldl_append, ← hraw]
      rfl

theorem chain_of_below {start : Nat} {path : List (List UInt8)} {e : DirEntry}
    (h : fs.Below start path e) (hdir : fs.isDir e = true) :
    ∃ n, Chain Visit.object fs.subdirs n start e.object := by
  have hnext : ∀ object, ∀ d ∈ fs.children object, fs.isDir d = true →
      visitOf "" [] d ∈ fs.subdirs { object, pathPrefix := "", rawPrefix := [] } :=
    fun object d hd hddir => List.mem_map_of_mem (List.mem_filter.mpr ⟨hd, hddir⟩)
  induction h with
  | here hmem => exact ⟨1, (Chain.zero _).cons (hnext _ _ hmem hdir)⟩
  | there hmem hparent _ ih =>
    obtain ⟨n, hn⟩ := ih hdir
    exact ⟨n + 1, hn.cons (hnext _ _ hmem hparent)⟩

theorem dirAt_of_chain {n start dir : Nat} (h : Chain Visit.object fs.subdirs n start dir) :
    fs.DirAt start dir := by
  have hroute : ∃ path, fs.RouteTo start path dir := by
    induction h with
    | zero => exact ⟨[], Or.inl ⟨rfl, rfl⟩⟩
    | step _ ha hb ih =>
      obtain ⟨path, hpath⟩ := ih
      obtain ⟨e, he, hdir, rfl⟩ := mem_subdirs hb
      rw [ha] at he
      exact ⟨_, hpath.snoc he hdir⟩
  obtain ⟨path, hpath⟩ := hroute
  exact hpath.dirAt

/-- What is below the start is visited, or lies too deep. -/
theorem visited_or_beyond {start dir : Nat} (pathPrefix : String) (rawPrefix : List UInt8)
    (h : fs.DirAt start dir) :
    dir ∈ (dfs Visit.object fs.subdirs (maxDepth + 1)
        { object := start, pathPrefix, rawPrefix } Trip.start).keys Visit.object ∨
      fs.Beyond start dir := by
  have hchain : ∃ n, Chain Visit.object fs.subdirs n start dir := by
    rcases h with rfl | ⟨path, e, he, hdir, rfl⟩
    · exact ⟨0, Chain.zero _⟩
    · exact chain_of_below he hdir
  obtain ⟨n, hn⟩ := hchain
  have hcovers : dir ∈ (dfs Visit.object fs.subdirs (maxDepth + 1)
      { object := start, pathPrefix, rawPrefix } Trip.start).keys Visit.object ∨ _ :=
    dfs_covers (fun _ _ hab => subdirs_objects hab) hn
  rcases hcovers with hvisited | ⟨ks, deep, m, hlength, htrail, hbelow⟩
  · exact Or.inl hvisited
  · exact Or.inr ⟨ks, deep, hlength, htrail, dirAt_of_chain hbelow⟩

variable (fs) in
/-- What a walk visits is what it reads, no deeper than `maxDepth`. -/
theorem walk_visits (start : Nat) (pathPrefix : String) (rawPrefix : List UInt8) :
    ∃ visits : List Visit,
      (fs.walkInto true (maxDepth + 1) start pathPrefix rawPrefix
        { seenDirs := [], out := [] }).seenDirs = visits.map Visit.object ∧
      (visits.map Visit.object).Nodup ∧
      (∀ v ∈ visits, ∃ path, path.length ≤ maxDepth ∧ fs.RouteTo start path v.object ∧
        v.rawPrefix = path.foldl joinRaw rawPrefix) ∧
      (fs.walkFrom start pathPrefix rawPrefix true).Perm (visits.flatMap fs.report) ∧
      ∀ dir, fs.DirAt start dir → dir ∈ visits.map Visit.object ∨ fs.Beyond start dir := by
  have hadds : fs.Adds [] _ _ _ _ := walkInto_adds (maxDepth + 1)
    { object := start, pathPrefix, rawPrefix } { seenDirs := [], out := [] } Trip.start rfl
  obtain ⟨new, out, hvisited, hout, hperm⟩ := hadds.told
  refine ⟨_, hadds.seen, dfs_nodup (maxDepth + 1) _ List.nodup_nil, ?_, ?_, ?_⟩
  · intro v hv
    obtain ⟨path, hlength, hroute⟩ := visited_route v hv
    exact ⟨path, Nat.le_of_lt_succ hlength, hroute⟩
  · rw [List.nil_append] at hperm
    rw [walkFrom, hout, hvisited]
    exact hperm
  · exact fun dir hdir => visited_or_beyond pathPrefix rawPrefix hdir

/-- Sixty-seven directories, each but the last with one name. -/
def deepTree : Filesystem :=
  { root := 0
    readDir := fun object =>
      if object < 66 then
        .ok [{ name := "d", raw := [100], object := object + 1, fileType := .dir }]
      else .ok []
    znode := fun _ =>
      .ok
        { mode := 16877, size := 0, links := 2, uid := 0, gid := 0, mtime := 0, xattr := 0
          symlink := none, dxattr := none, projid := none }
    object := fun _ => .error (.io "")
    symlinkTarget := fun _ _ => .error (.io "")
    xattrs := fun _ => []
    lookupBytes := fun _ => .error (.io "") }

theorem deepTree_children {object : Nat} {e : DirEntry} (h : e ∈ deepTree.children object) :
    e.object = object + 1 := by
  obtain ⟨entries, hread, hmem⟩ := mem_children h
  simp only [deepTree] at hread
  split at hread
  · cases hread
    rw [List.mem_singleton.mp hmem]
  · cases hread
    cases hmem

theorem deepTree_below {start : Nat} {path : List (List UInt8)} {e : DirEntry}
    (h : deepTree.Below start path e) : e.object = start + path.length := by
  induction h with
  | here hmem => exact deepTree_children hmem
  | there hmem _ _ ih =>
    rw [ih, deepTree_children hmem, List.length_cons]
    omega

theorem deepTree_dirAt {n : Nat} (hn : n ≤ 66) : deepTree.DirAt 0 n := by
  have hroute : ∃ path, deepTree.RouteTo 0 path n := by
    induction n with
    | zero => exact ⟨[], Or.inl ⟨rfl, rfl⟩⟩
    | succ n ih =>
      obtain ⟨path, hpath⟩ := ih (by omega)
      have hread : deepTree.readDir n =
          .ok [{ name := "d", raw := [100], object := n + 1, fileType := .dir }] :=
        if_pos (by omega)
      have hmem : ({ name := "d", raw := [100], object := n + 1, fileType := .dir } : DirEntry) ∈
          deepTree.children n := by
        rw [children_of_ok hread]
        exact List.mem_singleton_self _
      exact ⟨_, hpath.snoc hmem rfl⟩
  obtain ⟨path, hpath⟩ := hroute
  exact hpath.dirAt

end Filesystem

end Zpl
end ZvolRescue
