import ZvolRescue.Lib.Firsts
import ZvolRescue.Ondisk.Nvlist
import ZvolRescue.Zpl.Filesystem

/-!
# Filesystems that are trees

Where every directory has one name a walk lists each directory once, with what lies below it after
its name (`walkInto_listing`).  What a walk meets is then what lies below its start at no more
names than the walk is deep (`mem_listing`).
-/

namespace ZvolRescue
namespace Zpl

open Ondisk Zio

namespace Filesystem

variable (fs : Filesystem)

/-- The names in a directory; none where it cannot be read. -/
def children (object : Nat) : List DirEntry := (fs.readDir object).toOption.getD []

/-- Below a directory these names lead to this one. -/
inductive Below : Nat → List (List UInt8) → DirEntry → Prop
  | here {object : Nat} {e : DirEntry} : e ∈ fs.children object → Below object [e.raw] e
  | there {object : Nat} {d e : DirEntry} {path : List (List UInt8)} :
    d ∈ fs.children object → fs.isDir d = true → Below d.object path e →
      Below object (d.raw :: path) e

/-- A name that a directory can hold. -/
structure GoodName (name : List UInt8) : Prop where
  ne_nil : name ≠ []
  ne_dot : name ≠ [46]
  ne_dots : name ≠ [46, 46]
  slash : (47 : UInt8) ∉ name
  nul : (0 : UInt8) ∉ name

/-- A directory below this one, or itself. -/
def DirAt (object dir : Nat) : Prop :=
  dir = object ∨ ∃ path e, fs.Below object path e ∧ fs.isDir e = true ∧ e.object = dir

/-- Below this directory each name is good and stands once in its directory, and each directory
has one name. -/
structure TreeAt (object : Nat) : Prop where
  names : ∀ path e, fs.Below object path e → GoodName e.raw
  nodup : ∀ dir, fs.DirAt object dir → ((fs.children dir).map DirEntry.raw).Nodup
  apart : ∀ path e path' e', fs.Below object path e → fs.Below object path' e' →
    fs.isDir e = true → fs.isDir e' = true → e.object = e'.object → path = path'
  above : ∀ path e, fs.Below object path e → fs.isDir e = true → e.object ≠ object

/-- The filesystem is a tree of directories; a file may have more names. -/
structure IsTree : Prop where
  tree : fs.TreeAt fs.root
  root : ∀ z, fs.znode fs.root = .ok z → z.fileType = .dir

/-- No object has two names. -/
structure SingleNames : Prop where
  apart : ∀ path e path' e', fs.Below fs.root path e → fs.Below fs.root path' e' →
    e.object = e'.object → path = path'
  root : ∀ path e, fs.Below fs.root path e → e.object ≠ fs.root

/-- What lies below a directory so many levels deep, each name before what lies below it. -/
def listing : (levels object : Nat) → String → List UInt8 → List Entry
  | 0, _, _, _ => []
  | levels + 1, object, pathPrefix, rawPrefix =>
    match fs.readDir object with
    | .error e =>
      [{ path := pathPrefix, rawPath := rawPrefix, object, znode := none
         error := some s!"directory: {e.text}" }]
    | .ok entries =>
      entries.flatMap (fun e =>
        let entry := fs.entryOf pathPrefix rawPrefix e
        entry :: if fs.isDir e then listing levels e.object entry.path entry.rawPath else [])

variable {fs}

theorem Below.ne_nil {object : Nat} {path : List (List UInt8)} {e : DirEntry}
    (h : fs.Below object path e) : path ≠ [] := by
  cases h with
  | here _ => exact List.cons_ne_nil _ _
  | there _ _ _ => exact List.cons_ne_nil _ _

theorem children_of_ok {object : Nat} {entries : List DirEntry}
    (h : fs.readDir object = .ok entries) : fs.children object = entries := by
  rw [children, h]
  rfl

/-! ## Trees -/

namespace TreeAt

variable {object : Nat} {d : DirEntry}

theorem dirAt_child (hd : d ∈ fs.children object) (hdir : fs.isDir d = true) {dir : Nat}
    (h : fs.DirAt d.object dir) : fs.DirAt object dir := by
  rcases h with rfl | ⟨path, e, he, hedir, rfl⟩
  · exact Or.inr ⟨[d.raw], d, .here hd, hdir, rfl⟩
  · exact Or.inr ⟨d.raw :: path, e, .there hd hdir he, hedir, rfl⟩

/-- What lies below a directory of a tree is a tree. -/
theorem child (h : fs.TreeAt object) (hd : d ∈ fs.children object) (hdir : fs.isDir d = true) :
    fs.TreeAt d.object where
  names path e he := h.names _ e (.there hd hdir he)
  nodup dir hat := h.nodup dir (dirAt_child hd hdir hat)
  apart path e path' e' he he' hedir hedir' heq :=
    (List.cons.inj (h.apart _ e _ e' (.there hd hdir he) (.there hd hdir he') hedir hedir' heq)).2
  above path e he hedir heq := by
    have hpath := h.apart _ e _ d (.there hd hdir he) (.here hd) hedir hdir heq
    exact he.ne_nil (List.cons.inj hpath).2

/-- Two directories of different names share no directory. -/
theorem disjoint (h : fs.TreeAt object) {d' : DirEntry} (hd : d ∈ fs.children object)
    (hd' : d' ∈ fs.children object) (hdir : fs.isDir d = true) (hdir' : fs.isDir d' = true)
    (hne : d.raw ≠ d'.raw) {dir : Nat} (hat : fs.DirAt d.object dir) :
    ¬ fs.DirAt d'.object dir := by
  have hnamed : ∀ c ∈ fs.children object, fs.isDir c = true → fs.DirAt c.object dir →
      ∃ path e, fs.Below object (c.raw :: path) e ∧ fs.isDir e = true ∧ e.object = dir := by
    rintro c hc hcdir (rfl | ⟨path, e, he, hedir, rfl⟩)
    · exact ⟨[], c, .here hc, hcdir, rfl⟩
    · exact ⟨path, e, .there hc hcdir he, hedir, rfl⟩
  intro hat'
  obtain ⟨path, e, he, hedir, heq⟩ := hnamed d hd hdir hat
  obtain ⟨path', e', he', hedir', heq'⟩ := hnamed d' hd' hdir' hat'
  have hpath := h.apart _ e _ e' he he' hedir hedir' (heq.trans heq'.symm)
  exact hne (List.cons.inj hpath).1

theorem not_dirAt_child (h : fs.TreeAt object) (hd : d ∈ fs.children object)
    (hdir : fs.isDir d = true) : ¬ fs.DirAt d.object object := by
  rintro (heq | ⟨path, e, he, hedir, heq⟩)
  · exact h.above _ d (.here hd) hdir heq.symm
  · exact h.above _ e (.there hd hdir he) hedir heq

/-- A path leads to one name. -/
theorem unique (h : fs.TreeAt object) {path : List (List UInt8)} {e : DirEntry}
    (he : fs.Below object path e) : ∀ {e' : DirEntry}, fs.Below object path e' → e' = e := by
  induction he with
  | here hmem =>
    intro e' he'
    have hnodup := h.nodup _ (Or.inl rfl)
    generalize hp : [_] = path at he'
    cases he' with
    | here hmem' =>
      exact List.inj_on_of_nodup_map hnodup hmem' hmem (List.cons.inj hp).1.symm
    | there _ _ hbelow => exact absurd (List.cons.inj hp).2.symm hbelow.ne_nil
  | there hmem hdir hbelow ih =>
    intro e' he'
    have hnodup := h.nodup _ (Or.inl rfl)
    generalize hp : _ :: _ = path at he'
    cases he' with
    | here _ => exact absurd (List.cons.inj hp).2 hbelow.ne_nil
    | there hmem' _ hbelow' =>
      obtain ⟨hraw, rfl⟩ := List.cons.inj hp
      obtain rfl := List.inj_on_of_nodup_map hnodup hmem' hmem hraw.symm
      exact ih (h.child hmem hdir) hbelow'

/-- A path in a tree has good names only. -/
theorem good (h : fs.TreeAt object) {path : List (List UInt8)} {e : DirEntry}
    (he : fs.Below object path e) : ∀ name ∈ path, GoodName name := by
  induction he with
  | here hmem =>
    intro name hname
    rw [List.mem_singleton.mp hname]
    exact h.names _ _ (.here hmem)
  | there hmem hdir _ ih =>
    intro name hname
    rcases List.mem_cons.mp hname with rfl | hname
    · exact h.names _ _ (.here hmem)
    · exact ih (h.child hmem hdir) name hname

/-- The subdirectory that a path leads to is a tree. -/
theorem below (h : fs.TreeAt object) {path : List (List UInt8)} {e : DirEntry}
    (he : fs.Below object path e) (hdir : fs.isDir e = true) : fs.TreeAt e.object := by
  induction he with
  | here hmem => exact h.child hmem hdir
  | there hmem hparent _ ih => exact ih (h.child hmem hparent) hdir

end TreeAt

theorem Below.append {object : Nat} {path rest : List (List UInt8)} {d e : DirEntry}
    (hd : fs.Below object path d) (hdir : fs.isDir d = true) (he : fs.Below d.object rest e) :
    fs.Below object (path ++ rest) e := by
  induction hd with
  | here hmem => exact .there hmem hdir he
  | there hmem hparent _ ih => exact .there hmem hparent (ih hdir he)

theorem Below.split : ∀ {object : Nat} {path rest : List (List UInt8)} {e : DirEntry},
    fs.Below object (path ++ rest) e → path ≠ [] → rest ≠ [] →
      ∃ d, fs.Below object path d ∧ fs.isDir d = true ∧ fs.Below d.object rest e := by
  intro object path
  induction path generalizing object with
  | nil =>
    intro rest e _ hpath
    exact absurd rfl hpath
  | cons name path ih =>
    intro rest e h _ hrest
    rw [List.cons_append] at h
    generalize hp : path ++ rest = whole at h
    cases h with
    | here hmem => exact absurd (List.append_eq_nil_iff.mp hp).2 hrest
    | @there _ c _ _ hmem hdir hbelow =>
      by_cases hnil : path = []
      · rw [hnil, List.nil_append] at hp
        rw [hnil, hp]
        exact ⟨c, .here hmem, hdir, hbelow⟩
      · rw [← hp] at hbelow
        obtain ⟨d, hd, hddir, hrest'⟩ := ih hbelow hnil hrest
        exact ⟨d, .there hmem hdir hd, hddir, hrest'⟩

/-! ## Looking up -/

variable (fs) in
/-- Follow the parts of a path; `matched` finds a name that is not there by its bytes. -/
def lookupFrom (matched : List DirEntry → List UInt8 → Option DirEntry) (shown : String) :
    Nat → List (List UInt8) → Except ReadError Nat
  | object, [] => .ok object
  | object, part :: rest => do
    let entries ← fs.readDir object
    match (entries.find? (fun e => e.raw = part)).or (matched entries part) with
    | none => .error (.io s!"{shown}: no such file or directory")
    | some e => lookupFrom matched shown e.object rest

theorem lookupFrom_congr {fs' : Filesystem} (h : fs.readDir = fs'.readDir)
    (matched : List DirEntry → List UInt8 → Option DirEntry) (shown : String) :
    ∀ parts object, fs.lookupFrom matched shown object parts =
      fs'.lookupFrom matched shown object parts := by
  intro parts
  induction parts with
  | nil =>
    intro object
    rfl
  | cons part parts ih =>
    intro object
    rw [lookupFrom, lookupFrom, h]
    simp only [ih]

variable (fs) in
/-- Paths are looked up part by part, and names by their bytes first. -/
def LooksUp : Prop :=
  ∃ matched, ∀ path, fs.lookupBytes path = fs.lookupFrom matched (fromUtf8Lossy path) fs.root
    ((path.splitOn 47).filter (fun part => part ≠ [] ∧ part ≠ [46]))

variable (fs) in
/-- The parts of a path name an object by their bytes. -/
def Names (path : List (List UInt8)) (object : Nat) : Prop :=
  path = [] ∧ object = fs.root ∨ ∃ d, fs.Below fs.root path d ∧ d.object = object

theorem Names.unique {path : List (List UInt8)} {object object' : Nat} (htree : fs.IsTree)
    (h : fs.Names path object) (h' : fs.Names path object') : object = object' := by
  rcases h with ⟨rfl, rfl⟩ | ⟨d, hd, rfl⟩
  · rcases h' with ⟨-, rfl⟩ | ⟨d', hd', -⟩
    · rfl
    · exact absurd rfl hd'.ne_nil
  · rcases h' with ⟨rfl, -⟩ | ⟨d', hd', rfl⟩
    · exact absurd rfl hd.ne_nil
    · rw [htree.tree.unique hd hd']

theorem mem_children {object : Nat} {d : DirEntry} (h : d ∈ fs.children object) :
    ∃ entries, fs.readDir object = .ok entries ∧ d ∈ entries := by
  cases hread : fs.readDir object with
  | error err =>
    rw [children, hread] at h
    cases h
  | ok entries =>
    rw [children_of_ok hread] at h
    exact ⟨entries, rfl, h⟩

/-- Names are followed by their bytes where no directory holds one twice. -/
theorem Below.lookupFrom (matched : List DirEntry → List UInt8 → Option DirEntry) (shown : String)
    {object : Nat} {path : List (List UInt8)} {e : DirEntry} (he : fs.Below object path e)
    (h : ∀ dir, fs.DirAt object dir → ((fs.children dir).map DirEntry.raw).Nodup) :
    fs.lookupFrom matched shown object path = .ok e.object := by
  have hfind : ∀ {object entries d}, ((fs.children object).map DirEntry.raw).Nodup →
      fs.readDir object = .ok entries → d ∈ entries →
        entries.find? (fun e => e.raw = d.raw) = some d := by
    intro object entries d hnodup hread hd
    rw [children_of_ok hread] at hnodup
    exact Lib.IsFirst.of_nodup hnodup hd
  induction he with
  | here hmem =>
    obtain ⟨entries, hread, hin⟩ := mem_children hmem
    rw [Filesystem.lookupFrom, hread]
    simp only [bind, Except.bind, hfind (h _ (Or.inl rfl)) hread hin, Option.some_or]
    rfl
  | there hmem hdir _ ih =>
    obtain ⟨entries, hread, hin⟩ := mem_children hmem
    rw [Filesystem.lookupFrom, hread]
    simp only [bind, Except.bind, hfind (h _ (Or.inl rfl)) hread hin, Option.some_or]
    exact ih (fun dir hat => h dir (TreeAt.dirAt_child hmem hdir hat))

/-- What is named by its bytes is found. -/
theorem LooksUp.names {path : List UInt8} {object : Nat} (hlooks : fs.LooksUp)
    (hnodup : ∀ dir, fs.DirAt fs.root dir → ((fs.children dir).map DirEntry.raw).Nodup)
    (h : fs.Names ((path.splitOn 47).filter (fun part => part ≠ [] ∧ part ≠ [46])) object) :
    fs.lookupBytes path = .ok object := by
  obtain ⟨matched, hmatched⟩ := hlooks
  rw [hmatched]
  rcases h with ⟨hnil, rfl⟩ | ⟨d, hd, rfl⟩
  · rw [hnil]
    rfl
  · exact hd.lookupFrom matched _ hnodup

theorem Names.lookup {path : List UInt8} {object : Nat} (hlooks : fs.LooksUp)
    (htree : fs.IsTree)
    (h : fs.Names ((path.splitOn 47).filter (fun part => part ≠ [] ∧ part ≠ [46])) object) :
    fs.lookupBytes path = .ok object :=
  hlooks.names htree.tree.nodup h

/-! ## The walk -/

variable (fs) in
/-- What is listed for one name. -/
def listed (levels : Nat) (pathPrefix : String) (rawPrefix : List UInt8) (e : DirEntry) :
    List Entry :=
  let entry := fs.entryOf pathPrefix rawPrefix e
  entry :: if fs.isDir e then fs.listing levels e.object entry.path entry.rawPath else []

/-- A walk that lists what lies below a directory, and no directory elsewhere. -/
def Lists (w w' : Walked) (entries : List Entry) (Dir : Nat → Prop) : Prop :=
  w'.out = w.out ++ entries ∧ ∀ dir ∈ w'.seenDirs, dir ∈ w.seenDirs ∨ Dir dir

theorem visitEntries_listing {levels object : Nat} {pathPrefix : String} {rawPrefix : List UInt8}
    (htree : fs.TreeAt object)
    (hvisit : ∀ d ∈ fs.children object, fs.isDir d = true → ∀ pathPrefix rawPrefix w,
      (∀ dir, fs.DirAt d.object dir → dir ∉ w.seenDirs) →
        Lists w (fs.walkInto true levels d.object pathPrefix rawPrefix w)
          (fs.listing levels d.object pathPrefix rawPrefix) (fs.DirAt d.object)) :
    ∀ (rest : List DirEntry) (w : Walked), (∀ d ∈ rest, d ∈ fs.children object) →
      (rest.map DirEntry.raw).Nodup →
      (∀ d ∈ rest, fs.isDir d = true → ∀ dir, fs.DirAt d.object dir → dir ∉ w.seenDirs) →
        Lists w (fs.visitEntries (fs.walkInto true levels) pathPrefix rawPrefix true rest w)
          (rest.flatMap (fs.listed levels pathPrefix rawPrefix))
          (fun dir => ∃ d ∈ rest, fs.isDir d = true ∧ fs.DirAt d.object dir) := by
  intro rest
  induction rest with
  | nil =>
    intro w _ _ _
    exact ⟨(List.append_nil _).symm, fun dir hdir => Or.inl hdir⟩
  | cons d rest ih =>
    intro w hmem hnodup hfresh
    have hd := hmem d List.mem_cons_self
    obtain ⟨hraw, hnodup⟩ := List.nodup_cons.mp hnodup
    have hrest : ∀ d' ∈ rest, d' ∈ fs.children object :=
      fun d' hd' => hmem d' (List.mem_cons_of_mem _ hd')
    rw [visitEntries, List.flatMap_cons]
    let entry := fs.entryOf pathPrefix rawPrefix d
    let met : Walked := { w with out := w.out ++ [entry] }
    cases hdir : fs.isDir d with
    | false =>
      simp only [Bool.false_and, Bool.false_eq_true, if_false, listed, hdir]
      obtain ⟨hout, hseen⟩ := ih met hrest hnodup
        (fun d' hd' => hfresh d' (List.mem_cons_of_mem _ hd'))
      refine ⟨?_, fun dir hat => ?_⟩
      · rw [hout]
        simp [met, entry]
      · rcases hseen dir hat with hold | ⟨d', hd', hrest'⟩
        · exact Or.inl hold
        · exact Or.inr ⟨d', List.mem_cons_of_mem _ hd', hrest'⟩
    | true =>
      simp only [Bool.true_and, if_true, listed, hdir]
      obtain ⟨hout, hseen⟩ := hvisit d hd hdir entry.path entry.rawPath met
        (hfresh d List.mem_cons_self hdir)
      let walked := fs.walkInto true levels d.object entry.path entry.rawPath met
      have hfresh' : ∀ d' ∈ rest, fs.isDir d' = true → ∀ dir, fs.DirAt d'.object dir →
          dir ∉ walked.seenDirs := by
        intro d' hd' hdir' dir hat hmem'
        rcases hseen dir hmem' with hold | hnew
        · exact hfresh d' (List.mem_cons_of_mem _ hd') hdir' dir hat hold
        · have hne : d.raw ≠ d'.raw := by
            intro heq
            rw [heq] at hraw
            exact hraw (List.mem_map_of_mem hd')
          exact htree.disjoint hd (hrest d' hd') hdir hdir' hne hnew hat
      obtain ⟨hout', hseen'⟩ := ih walked hrest hnodup hfresh'
      refine ⟨?_, fun dir hat => ?_⟩
      · rw [hout', hout]
        simp [met, entry]
      · rcases hseen' dir hat with hold | ⟨d', hd', hrest'⟩
        · rcases hseen dir hold with hold | hnew
          · exact Or.inl hold
          · exact Or.inr ⟨d, List.mem_cons_self, hdir, hnew⟩
        · exact Or.inr ⟨d', List.mem_cons_of_mem _ hd', hrest'⟩

/-- In a tree a walk lists what lies below its start, each directory once. -/
theorem walkInto_listing (levels : Nat) :
    ∀ (object : Nat) (pathPrefix : String) (rawPrefix : List UInt8) (w : Walked),
      fs.TreeAt object → (∀ dir, fs.DirAt object dir → dir ∉ w.seenDirs) →
        Lists w (fs.walkInto true levels object pathPrefix rawPrefix w)
          (fs.listing levels object pathPrefix rawPrefix) (fs.DirAt object) := by
  induction levels with
  | zero =>
    intro object pathPrefix rawPrefix w _ _
    exact ⟨(List.append_nil _).symm, fun dir hdir => Or.inl hdir⟩
  | succ levels ih =>
    intro object pathPrefix rawPrefix w htree hfresh
    rw [walkInto, if_neg (hfresh object (Or.inl rfl)), listing]
    have hself : ∀ dir ∈ w.seenDirs ++ [object], dir ∈ w.seenDirs ∨ fs.DirAt object dir := by
      intro dir hdir
      rcases List.mem_append.mp hdir with hdir | hdir
      · exact Or.inl hdir
      · exact Or.inr (Or.inl (List.mem_singleton.mp hdir))
    cases hread : fs.readDir object with
    | error err => exact ⟨rfl, hself⟩
    | ok entries =>
      have hchildren := children_of_ok hread
      have hmem : ∀ d ∈ entries, d ∈ fs.children object := by
        intro d hd
        rw [hchildren]
        exact hd
      have hnodup : (entries.map DirEntry.raw).Nodup := by
        have hall := htree.nodup object (Or.inl rfl)
        rwa [hchildren] at hall
      have hfresh' : ∀ d ∈ entries, fs.isDir d = true → ∀ dir, fs.DirAt d.object dir →
          dir ∉ w.seenDirs ++ [object] := by
        intro d hd hdir dir hat hin
        rcases List.mem_append.mp hin with hin | hin
        · exact hfresh dir (TreeAt.dirAt_child (hmem d hd) hdir hat) hin
        · rw [List.mem_singleton.mp hin] at hat
          exact htree.not_dirAt_child (hmem d hd) hdir hat
      have hvisit : ∀ d ∈ fs.children object, fs.isDir d = true → ∀ pathPrefix rawPrefix w,
          (∀ dir, fs.DirAt d.object dir → dir ∉ w.seenDirs) →
            Lists w (fs.walkInto true levels d.object pathPrefix rawPrefix w)
              (fs.listing levels d.object pathPrefix rawPrefix) (fs.DirAt d.object) :=
        fun d hd hdir pathPrefix rawPrefix w =>
          ih d.object pathPrefix rawPrefix w (htree.child hd hdir)
      obtain ⟨hout, hseen⟩ := visitEntries_listing htree hvisit entries
        { w with seenDirs := w.seenDirs ++ [object] } hmem hnodup hfresh'
      refine ⟨hout, fun dir hdir => ?_⟩
      rcases hseen dir hdir with hold | ⟨d, hd, hdir', hat⟩
      · exact hself dir hold
      · exact Or.inr (TreeAt.dirAt_child (hmem d hd) hdir' hat)

theorem walkFrom_listing {object : Nat} (htree : fs.TreeAt object) (pathPrefix : String)
    (rawPrefix : List UInt8) :
    fs.walkFrom object pathPrefix rawPrefix true =
      fs.listing (maxDepth + 1) object pathPrefix rawPrefix := by
  have hlists := walkInto_listing (maxDepth + 1) object pathPrefix rawPrefix
    { seenDirs := [], out := [] } htree (fun _ _ h => by cases h)
  exact hlists.1.trans (List.nil_append _)

/-! ## A directory that holds one name -/

section Pair

variable {d c : DirEntry} (hd : fs.children fs.root = [d]) (hc : fs.children d.object = [c])
  (hdir : fs.isDir d = true) (hfile : fs.isDir c = false)

include hd hc hfile

theorem Below.of_pair {path : List (List UInt8)} {e : DirEntry} (h : fs.Below fs.root path e) :
    path = [d.raw] ∧ e = d ∨ path = [d.raw, c.raw] ∧ e = c := by
  cases h with
  | here hmem =>
    rw [hd, List.mem_singleton] at hmem
    rw [hmem]
    exact Or.inl ⟨rfl, rfl⟩
  | there hmem _ hbelow =>
    rw [hd, List.mem_singleton] at hmem
    rw [hmem] at hbelow ⊢
    cases hbelow with
    | here hmem =>
      rw [hc, List.mem_singleton] at hmem
      rw [hmem]
      exact Or.inr ⟨rfl, rfl⟩
    | there hmem hdir' _ =>
      rw [hc, List.mem_singleton] at hmem
      rw [hmem, hfile] at hdir'
      cases hdir'

include hdir

theorem isTree_of_pair (hgood : GoodName d.raw) (hgood' : GoodName c.raw)
    (habove : d.object ≠ fs.root) (hroot : ∀ z, fs.znode fs.root = .ok z → z.fileType = .dir) :
    fs.IsTree := by
  have hbelow : ∀ {path e}, fs.Below fs.root path e →
      path = [d.raw] ∧ e = d ∨ path = [d.raw, c.raw] ∧ e = c := fun h => h.of_pair hd hc hfile
  refine ⟨⟨fun path e h => ?_, fun dir h => ?_, fun path e path' e' h h' he he' _ => ?_,
    fun path e h he => ?_⟩, hroot⟩
  · rcases hbelow h with ⟨-, rfl⟩ | ⟨-, rfl⟩
    · exact hgood
    · exact hgood'
  · rcases h with rfl | ⟨path, e, h, he, rfl⟩
    · rw [hd]
      exact List.nodup_singleton _
    · rcases hbelow h with ⟨-, rfl⟩ | ⟨-, rfl⟩
      · rw [hc]
        exact List.nodup_singleton _
      · rw [hfile] at he
        cases he
  · rcases hbelow h with ⟨rfl, rfl⟩ | ⟨-, rfl⟩
    · rcases hbelow h' with ⟨rfl, rfl⟩ | ⟨-, rfl⟩
      · rfl
      · rw [hfile] at he'
        cases he'
    · rw [hfile] at he
      cases he
  · rcases hbelow h with ⟨-, rfl⟩ | ⟨-, rfl⟩
    · exact habove
    · rw [hfile] at he
      cases he

end Pair

end Filesystem

end Zpl
end ZvolRescue
