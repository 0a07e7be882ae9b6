import ZvolRescue.Files.Layout
import ZvolRescue.Files.Tree

/-!
# A part of a tree

An extraction from a path writes and records what an extraction of the whole tree does below it,
as long as both walks reach the same files and the directory of each link is made by both
(`part_same_iff`).
-/

namespace ZvolRescue
namespace Files

open Lib Zpl Zpl.Filesystem

/-! ## What is extracted from a start -/

/-- A path that an object is named by. -/
structure Start (fs : Filesystem) (raw : List UInt8) (object : Nat) : Prop where
  relative : raw.head? ≠ some 47
  names : fs.Names (components raw) object

/-- A walk that starts here reaches what lies at this path below it. -/
def Reached (fs : Filesystem) (object : Nat) (rest : Path) : Prop :=
  rest = [] ∨ (∃ z, fs.znode object = .ok z ∧ z.fileType = .dir) ∧ rest.length ≤ maxDepth + 1

section Start

variable {fs : Filesystem} {raw : List UInt8} {object : Nat}

theorem znode_eq_ok {z : Znode} (h : (fs.znode object).toOption = some z) :
    fs.znode object = .ok z := by
  cases hread : fs.znode object with
  | error err =>
    rw [hread] at h
    cases h
  | ok z' =>
    rw [hread] at h
    cases h
    rfl

theorem isDir_of_znode {d : DirEntry} {z : Znode} (hz : fs.znode d.object = .ok z)
    (hdir : fs.isDir d = true) : z.fileType = .dir := by
  rw [isDir, hz] at hdir
  simpa using hdir

theorem Start.tree (htree : fs.IsTree) (h : Start fs raw object) {z : Znode}
    (hz : fs.znode object = .ok z) (hdir : z.fileType = .dir) : fs.TreeAt object := by
  rcases h.names with ⟨-, rfl⟩ | ⟨d, hd, rfl⟩
  · exact htree.tree
  · refine htree.tree.below hd ?_
    rw [isDir, hz]
    simpa using hdir

theorem Start.below (h : Start fs raw object) {z : Znode} (hz : fs.znode object = .ok z)
    (hdir : z.fileType = .dir) {rest : Path} {d : DirEntry} (hd : fs.Below object rest d) :
    fs.Below fs.root (components raw ++ rest) d := by
  rcases h.names with ⟨hnil, rfl⟩ | ⟨c, hc, rfl⟩
  · rw [hnil]
    exact hd
  · refine hc.append ?_ hd
    rw [isDir, hz]
    simpa using hdir

/-- What is extracted lies at or below the start, or stands for a directory. -/
theorem of_mem_entriesOf (htree : fs.IsTree) (h : Start fs raw object) :
    ∀ e ∈ entriesOf fs (object, raw),
      (∃ rest d, fs.Below fs.root (components raw ++ rest) d ∧ Reached fs object rest ∧
        EntryAt fs (components raw) rest d e) ∨
      e.znode = none ∧ (∀ z, fs.znode e.object = .ok z → z.fileType = .dir) ∧
        fs.Names (components e.rawPath) e.object := by
  intro e he
  rw [entriesOf] at he
  by_cases hdir : (fs.znode object).toOption.map Znode.fileType = some .dir
  · simp only [if_pos hdir] at he
    obtain ⟨z, hz, htype⟩ := Option.map_eq_some_iff.mp hdir
    have hz := znode_eq_ok hz
    have hat := h.tree htree hz htype
    rw [walkFrom_listing hat] at he
    rcases of_mem_listing _ _ _ _ hat h.relative e he with
      ⟨rest, d, hbelow, hlength, hentry⟩ | ⟨rest, hpath, hnone, hdirAt⟩
    · exact Or.inl ⟨rest, d, h.below hz htype hbelow, Or.inr ⟨⟨z, hz, htype⟩, hlength⟩, hentry⟩
    · rcases hdirAt with ⟨rfl, heq⟩ | ⟨d, hd, hddir, heq⟩
      · rw [heq]
        rw [List.append_nil] at hpath
        refine Or.inr ⟨hnone, fun z' hz' => ?_, by rw [hpath]; exact h.names⟩
        rw [hz] at hz'
        cases hz'
        exact htype
      · rw [← heq, hpath]
        exact Or.inr ⟨hnone, fun z' hz' => isDir_of_znode hz' hddir,
          Or.inr ⟨d, h.below hz htype hd, rfl⟩⟩
  · simp only [if_neg hdir] at he
    rw [List.mem_singleton.mp he]
    rcases h.names with ⟨hnil, rfl⟩ | ⟨d, hd, rfl⟩
    · right
      cases hz : fs.znode fs.root with
      | error err => exact ⟨rfl, fun z hz' => (by cases hz'), h.names⟩
      | ok z =>
        rw [hz] at hdir
        have htype := htree.root z hz
        exact absurd (congrArg some htype) hdir
    · refine Or.inl ⟨[], d, ?_, Or.inl rfl, ⟨(List.append_nil _).symm, h.relative, rfl, rfl⟩⟩
      rw [List.append_nil]
      exact hd

/-- A file that is reached is extracted. -/
theorem mem_entriesOf (htree : fs.IsTree) (h : Start fs raw object) {rest : Path} {d : DirEntry}
    (hd : fs.Below fs.root (components raw ++ rest) d) {z : Znode} (hz : fs.znode d.object = .ok z)
    (hfile : z.fileType ≠ .dir) (hreached : Reached fs object rest) :
    ∃ e ∈ entriesOf fs (object, raw), EntryAt fs (components raw) rest d e := by
  rw [entriesOf]
  by_cases hrest : rest = []
  · rw [hrest, List.append_nil] at hd
    have hobject : d.object = object := by
      rcases h.names with ⟨hnil, -⟩ | ⟨c, hc, heq⟩
      · exact absurd hnil hd.ne_nil
      · rw [← heq, htree.tree.unique hc hd]
    rw [hobject] at hz
    have hdir : ¬ (fs.znode object).toOption.map Znode.fileType = some .dir := by
      rw [hz]
      intro heq
      exact hfile (Option.some.inj heq)
    simp only [if_neg hdir]
    refine ⟨_, List.mem_singleton_self _, ?_, h.relative, hobject.symm, ?_⟩
    · rw [hrest, List.append_nil]
    · rw [hobject]
  · obtain ⟨⟨z', hz', htype⟩, hlength⟩ := hreached.resolve_left hrest
    have hdir : (fs.znode object).toOption.map Znode.fileType = some .dir := by
      rw [hz']
      exact congrArg some htype
    have hbelow : fs.Below object rest d := by
      rcases h.names with ⟨hnil, rfl⟩ | ⟨c, hc, rfl⟩
      · rw [hnil] at hd
        exact hd
      · obtain ⟨c', hc', -, hbelow⟩ := hd.split hc.ne_nil hrest
        rw [htree.tree.unique hc hc'] at hbelow
        exact hbelow
    simp only [if_pos hdir]
    rw [walkFrom_listing (h.tree htree hz' htype)]
    exact mem_listing _ _ _ _ (h.tree htree hz' htype) h.relative rest d hbelow hlength

/-- Each entry is named by its path. -/
theorem names_of_mem_entriesOf (htree : fs.IsTree) (h : Start fs raw object) {e : Entry}
    (he : e ∈ entriesOf fs (object, raw)) : fs.Names (components e.rawPath) e.object := by
  rcases of_mem_entriesOf htree h e he with ⟨rest, d, hd, -, hentry⟩ | ⟨-, -, hnames⟩
  · rw [hentry.components, hentry.object]
    exact Or.inr ⟨d, hd, rfl⟩
  · exact hnames

theorem entriesOf_distinct (htree : fs.IsTree) (h : Start fs raw object) :
    DistinctPaths (entriesOf fs (object, raw)) := by
  intro e he e' he' heq
  have hnames := names_of_mem_entriesOf htree h he
  have hnames' := names_of_mem_entriesOf htree h he'
  rw [← heq] at hnames'
  exact hnames.unique htree hnames'

theorem entriesOf_order (htree : fs.IsTree) (h : Start fs raw object) :
    (entriesOf fs (object, raw)).Pairwise Follows := by
  rw [entriesOf]
  by_cases hdir : (fs.znode object).toOption.map Znode.fileType = some .dir
  · simp only [if_pos hdir]
    obtain ⟨z, hz, htype⟩ := Option.map_eq_some_iff.mp hdir
    have hz := znode_eq_ok hz
    have hat := h.tree htree hz htype
    rw [walkFrom_listing hat]
    exact listing_order _ _ _ _ hat h.relative
  · simp only [if_neg hdir]
    exact List.pairwise_singleton _ _

/-- The entry of a name of the tree. -/
theorem exists_entryAt (htree : fs.IsTree) (h : Start fs raw object) {e : Entry}
    (he : e ∈ entriesOf fs (object, raw)) {z : Znode} (hz : e.znode = some z) :
    ∃ rest d, fs.Below fs.root (components raw ++ rest) d ∧ Reached fs object rest ∧
      EntryAt fs (components raw) rest d e ∧ fs.znode d.object = .ok z := by
  rcases of_mem_entriesOf htree h e he with ⟨rest, d, hd, hreached, hentry⟩ | ⟨hnone, -⟩
  · refine ⟨rest, d, hd, hreached, hentry, znode_eq_ok ?_⟩
    rw [← hentry.znode, hz]
  · rw [hnone] at hz
    cases hz

theorem safeJoin_good {path : List UInt8} (hrel : path.head? ≠ some 47)
    (hgood : ∀ name ∈ components path, GoodName name) (hne : components path ≠ []) :
    safeJoin path = some (components path) := by
  have hany : ¬ ((components path).any
      (fun part => decide (part = [46, 46] ∨ (0 : UInt8) ∈ part)) = true) := by
    rw [List.any_eq_true]
    rintro ⟨part, hpart, hbad⟩
    rcases of_decide_eq_true hbad with hdots | hnul
    · exact (hgood part hpart).ne_dots hdots
    · exact (hgood part hpart).nul hnul
  rw [safeJoin, if_neg hrel, if_neg hany, if_neg hne]

/-- A file of a tree has no names below it. -/
theorem not_prefix_of_file (htree : fs.IsTree) {path path' : Path} {d d' : DirEntry}
    (hd : fs.Below fs.root path d) (hd' : fs.Below fs.root path' d') {z : Znode}
    (hz : fs.znode d.object = .ok z) (hfile : z.fileType ≠ .dir) (hpre : path <+: path') :
    path' = path := by
  obtain ⟨rest, rfl⟩ := hpre
  by_cases hrest : rest = []
  · rw [hrest, List.append_nil]
  · obtain ⟨c, hc, hdir, -⟩ := hd'.split hd.ne_nil hrest
    rw [htree.tree.unique hd hc] at hdir
    exact absurd (isDir_of_znode hz hdir) hfile

theorem entriesOf_planned (htree : fs.IsTree) (h : Start fs raw object) :
    Planned (entriesOf fs (object, raw)) where
  safe e he z hz := by
    obtain ⟨rest, d, hd, -, hentry, -⟩ := exists_entryAt htree h he hz
    refine safeJoin_good hentry.relative ?_ ?_
    · rw [hentry.components]
      exact htree.tree.good hd
    · rw [hentry.components]
      exact hd.ne_nil
  apart e he e' he' z hz hfile hmakes := by
    obtain ⟨rest, d, hd, -, hentry, hread⟩ := exists_entryAt htree h he hz
    obtain ⟨-, z', hz', hmakes⟩ := hmakes
    obtain ⟨rest', d', hd', -, hentry', hread'⟩ := exists_entryAt htree h he' hz'
    rw [hentry.components, hentry'.components] at hmakes
    rcases hmakes with ⟨htype, hpre⟩ | ⟨-, hpre⟩
    · have hpath := not_prefix_of_file htree hd hd' hread hfile hpre
      rw [hpath] at hd'
      rw [htree.tree.unique hd hd', hread] at hread'
      cases hread'
      exact hfile htype
    · have hpath := not_prefix_of_file htree hd hd' hread hfile
        (hpre.trans (List.dropLast_prefix _))
      rw [hpath] at hpre
      have hlength := hpre.length_le
      have hpos := List.length_pos_of_ne_nil hd.ne_nil
      rw [List.length_dropLast] at hlength
      omega

end Start

/-! ## A whole run -/

section Run

variable {s : Setting} {fs : Filesystem} {es : List Entry}

/-- The link at this path is put, for its directory is made before. -/
def ReadyIn (es : List Entry) (q : Path) : Prop :=
  ∃ before e after, es = before ++ e :: after ∧ components e.rawPath = q ∧ e.znode ≠ none ∧
    Ready before q

/-- No two entries that could be read have one object. -/
def Single (es : List Entry) : Prop :=
  ∀ e ∈ es, ∀ e' ∈ es, ∀ z z', e.znode = some z → e'.znode = some z' → e.object = e'.object →
    components e.rawPath = components e'.rawPath

/-- What some entries leave at the path of one of them. -/
structure Left (s : Setting) (fs : Filesystem) (before : List Entry) (e : Entry) (z : Znode)
    (d : Disk (List UInt8)) : Prop where
  put : ∀ bytes, bytesOf s fs e.object z = some bytes →
    (z.fileType = .symlink → Ready before (components e.rawPath)) →
      d.contentAt (components e.rawPath) = some bytes
  unput : bytesOf s fs e.object z = none ∨
      z.fileType = .symlink ∧ ¬ Ready before (components e.rawPath) →
    d.contentAt (components e.rawPath) = none

/-- What a run of some entries has done. -/
structure Ran (s : Setting) (fs : Filesystem) (done : List Entry) (t : State) : Prop where
  laid : Laid done t.disk
  own : Own t.disk
  written : ∀ object w, t.writtenObjects.lookup object = some w →
    ∃ e ∈ done, e.object = object ∧ ∃ z, e.znode = some z
  records : List.Forall₂ (fun e r => r.object = e.object ∧
    ∀ z, e.znode = some z → IsFile z → r.details = detailsOf s fs e.object z) done t.files
  left : ∀ before e after, done = before ++ e :: after → ∀ z, e.znode = some z →
    IsFile z → Left s fs before e z t.disk

variable (hfree : ∀ time d op, s.refuses time d op = none) (hplan : Planned es)
  (horder : es.Pairwise Follows) (hsingle : Single es)

theorem Ran.start : Ran s fs [] (start (Disk.existing (fun _ => none))) where
  laid := Laid.start
  own q i h := by cases h
  written object w h := by cases h
  records := List.Forall₂.nil
  left before e after h := by simp at h

include hfree hplan horder hsingle

theorem Ran.extractEntry {done rest : List Entry} {e : Entry} {t : State}
    (hes : es = done ++ e :: rest) (h : Ran s fs done t) :
    Ran s fs (done ++ [e]) (extractEntry s fs t e) := by
  have hdone : ∀ e' ∈ done, e' ∈ es := by
    intro e' he'
    rw [hes]
    exact List.mem_append_left _ he'
  have he : e ∈ es := by
    rw [hes]
    exact List.mem_append_right _ List.mem_cons_self
  have hfollows : ∀ e' ∈ done, Follows e' e := by
    rw [hes, List.pairwise_append] at horder
    exact fun e' he' => horder.2.2 e' he' e List.mem_cons_self
  -- No entry before has the object or the path of a file.
  have hapart : ∀ e' ∈ done, ∀ z', e'.znode = some z' → ∀ z, e.znode = some z →
      components e.rawPath ≠ components e'.rawPath := by
    intro e' he' z' hz' z hz heq
    have hnone := (hfollows e' he' (by rw [heq])).2
    rw [hnone] at hz
    cases hz
  have hnew : ∀ z, e.znode = some z → z.fileType = .regular →
      t.writtenObjects.lookup e.object = none := by
    intro z hz _
    cases hlookup : t.writtenObjects.lookup e.object with
    | none => rfl
    | some w =>
      obtain ⟨e', he', hobject, z', hz'⟩ := h.written _ w hlookup
      exact absurd (hsingle e' (hdone e' he') e he z' z hz' hz hobject).symm
        (hapart e' he' z' hz' z hz)
  have hext : Extracts s fs done e t (Files.extractEntry s fs t e) :=
    extractEntry_extracts hfree hplan hdone he h.laid h.own hnew
  obtain ⟨r, hfiles, hobject, hdetails⟩ := hext.record
  refine ⟨h.laid.add hext.adds, hext.own, fun object w hw => ?_, ?_, ?_⟩
  · rcases hext.written object w hw with hold | ⟨heq, z, hz, -⟩
    · obtain ⟨e', he', hrest⟩ := h.written object w hold
      exact ⟨e', List.mem_append_left _ he', hrest⟩
    · exact ⟨e, List.mem_append_right _ (List.mem_singleton_self e), heq.symm, z, hz⟩
  · rw [hfiles]
    exact List.rel_append h.records (List.Forall₂.cons ⟨hobject, hdetails⟩ List.Forall₂.nil)
  · intro before e' after hsplit z hz hfile
    rcases List.eq_nil_or_concat after with rfl | ⟨after', last, rfl⟩
    · -- The entry itself.
      obtain ⟨rfl, heq⟩ := List.append_inj' hsplit rfl
      cases heq
      refine ⟨fun bytes hbytes hready => hext.puts.put z bytes hz hbytes hready, fun hnone => ?_⟩
      have hbefore : t.disk.contentAt (components e.rawPath) = none := by
        rw [Disk.contentAt]
        split
        · rename_i i hi
          obtain ⟨e', he', z', hz', -, heq⟩ := h.laid.files _ i hi
          exact absurd heq.symm (hapart e' he' z' hz' z hz)
        · rfl
      rw [hext.puts.unput (fun z' hz' => ?_)]
      · exact hbefore
      · rw [hz] at hz'
        cases hz'
        exact hnone
    · -- An entry before keeps what it has.
      have hinit : done ++ [e] = (before ++ e' :: after') ++ [last] := by
        rw [hsplit]
        simp
      obtain ⟨hdone', heq⟩ := List.append_inj' hinit rfl
      cases heq
      have hleft := h.left before e' after' hdone' z hz hfile
      have hmem : e' ∈ done := by
        rw [hdone']
        exact List.mem_append_right _ List.mem_cons_self
      have hsame : (Files.extractEntry s fs t e).disk.contentAt (components e'.rawPath) =
          t.disk.contentAt (components e'.rawPath) := by
        by_cases hpath : components e.rawPath = components e'.rawPath
        · have hnone := (hfollows e' hmem (by rw [hpath])).2
          rw [← hpath]
          refine hext.puts.unput (fun z' hz' => ?_)
          rw [hnone] at hz'
          cases hz'
        · exact hext.puts.kept _ (fun heq => hpath heq.symm)
      exact ⟨fun bytes hbytes hready => hsame.trans (hleft.put bytes hbytes hready),
        fun hnone => hsame.trans (hleft.unput hnone)⟩

theorem ran_from : ∀ (rest done : List Entry) (t : State), es = done ++ rest → Ran s fs done t →
    Ran s fs es (rest.foldl (extractEntry s fs) t) := by
  intro rest
  induction rest with
  | nil =>
    intro done t hes h
    rw [hes, List.append_nil]
    exact h
  | cons e rest ih =>
    intro done t hes h
    refine ih (done ++ [e]) _ (by rw [hes]; simp) ?_
    exact h.extractEntry hfree hplan horder hsingle hes

theorem ran : Ran s fs es (es.foldl (extractEntry s fs) (start (Disk.existing (fun _ => none)))) :=
  ran_from hfree hplan horder hsingle es [] _ rfl Ran.start

end Run

/-! ## What a run leaves of a file of the tree -/

/-- What is recorded of an object. -/
def ManifestOut.detailsOf (m : ManifestOut) (object : Nat) : Option Details :=
  (m.files.find? (fun r => r.object = object)).map Extracted.details

/-- Two runs have written and recorded the same of a file. -/
structure Same (whole part : Output) (path : Path) (object : Nat) : Prop where
  bytes : whole.disk.contentAt path = part.disk.contentAt path
  record : whole.manifest.detailsOf object = part.manifest.detailsOf object

/-- What a run of the whole tree has written and recorded of every file at or below `p`, the other
run has as well. -/
def SamePart (fs : Filesystem) (whole part : Output) (p : Path) : Prop :=
  ∀ rest d z, fs.Below fs.root (p ++ rest) d → fs.znode d.object = .ok z → IsFile z →
    Same whole part (p ++ rest) d.object

/-- Both walks reach the same files below `p`, and every link that the walk of the whole tree puts
has its directory made by the walk from there as well. -/
structure Agrees (fs : Filesystem) (asked : List UInt8) (object : Nat) : Prop where
  reached : ∀ rest d z, fs.Below fs.root (components asked ++ rest) d →
    fs.znode d.object = .ok z → IsFile z →
      (Reached fs fs.root (components asked ++ rest) ↔ Reached fs object rest)
  ready : ∀ rest d z target, fs.Below fs.root (components asked ++ rest) d →
    fs.znode d.object = .ok z → z.fileType = .symlink → fs.symlinkTarget d.object z = .ok target →
      Reached fs fs.root (components asked ++ rest) →
        (ReadyIn (entriesOf fs (fs.root, [])) (components asked ++ rest) ↔
          ReadyIn (entriesOf fs (object, trimmed asked)) (components asked ++ rest))

section Outcome

variable {s : Setting} {fs : Filesystem} {raw : List UInt8} {object : Nat}

theorem find_details {es : List Entry} {rs : List Extracted} {z : Znode}
    (h : List.Forall₂ (fun e r => r.object = e.object ∧
      ∀ z, e.znode = some z → IsFile z → r.details = detailsOf s fs e.object z) es rs)
    (hfile : IsFile z) (hall : ∀ e ∈ es, e.object = object → e.znode = some z) :
    (rs.find? (fun r => r.object = object)).map Extracted.details =
      if ∃ e ∈ es, e.object = object then some (detailsOf s fs object z) else none := by
  induction h with
  | nil => simp
  | @cons e r es rs hone _ ih =>
    rw [List.find?_cons, hone.1]
    by_cases hobject : e.object = object
    · have hdetails := hone.2 z (hall e List.mem_cons_self hobject) hfile
      rw [hobject] at hdetails
      simp [hobject, hdetails]
    · have ih := ih (fun e' he' => hall e' (List.mem_cons_of_mem _ he'))
      simp only [hobject, decide_false]
      rw [ih]
      simp [hobject]

theorem entriesOf_single (htree : fs.IsTree) (hnames : fs.SingleNames) (h : Start fs raw object) :
    Single (entriesOf fs (object, raw)) := by
  intro e he e' he' z z' hz hz' hobject
  obtain ⟨rest, d, hd, -, hentry, -⟩ := exists_entryAt htree h he hz
  obtain ⟨rest', d', hd', -, hentry', -⟩ := exists_entryAt htree h he' hz'
  rw [hentry.components, hentry'.components]
  refine hnames.apart _ d _ d' hd hd' ?_
  rw [← hentry.object, ← hentry'.object, hobject]

/-- A link is put where it is extracted, once. -/
theorem readyIn_iff {es before after : List Entry} {e : Entry} {z : Znode}
    (horder : es.Pairwise Follows) (hes : es = before ++ e :: after) (hz : e.znode = some z) :
    ReadyIn es (components e.rawPath) ↔ Ready before (components e.rawPath) := by
  constructor
  · rintro ⟨before', e', after', hes', hpath, hread, hready⟩
    rw [hes] at hes'
    -- One split cannot lie before the other, as the later entry would follow one at its path.
    rcases List.append_eq_append_iff.mp hes' with ⟨l, hbefore, hafter⟩ | ⟨l, hbefore, hafter⟩
    · cases l with
      | nil =>
        rw [hbefore, List.append_nil] at hready
        exact hready
      | cons c l =>
        obtain ⟨rfl, hrest⟩ := List.cons.inj hafter
        rw [hes, hrest, List.pairwise_append, List.pairwise_cons] at horder
        have hnone := (horder.2.1.1 e' (by simp) (by rw [hpath])).2
        exact absurd hnone hread
    · cases l with
      | nil =>
        rw [List.append_nil] at hbefore
        rw [hbefore]
        exact hready
      | cons c l =>
        obtain ⟨rfl, -⟩ := List.cons.inj hafter
        rw [hes, hbefore, List.pairwise_append] at horder
        have hnone := (horder.2.2 e' (by simp) e (by simp) (by rw [hpath])).2
        rw [hnone] at hz
        cases hz
  · intro hready
    refine ⟨before, e, after, hes, rfl, ?_, hready⟩
    rw [hz]
    exact Option.some_ne_none z

/-- What a run of the entries of a start leaves of a file at or below it. -/
structure Leaves (s : Setting) (fs : Filesystem) (es : List Entry) (met : Prop) (path : Path)
    (object : Nat) (z : Znode) (t : State) : Prop where
  put : met → ∀ bytes, bytesOf s fs object z = some bytes →
    (z.fileType = .symlink → ReadyIn es path) → t.disk.contentAt path = some bytes
  unput : ¬ met ∨ bytesOf s fs object z = none ∨ z.fileType = .symlink ∧ ¬ ReadyIn es path →
    t.disk.contentAt path = none
  record : met → (t.files.find? (fun r => r.object = object)).map Extracted.details =
    some (detailsOf s fs object z)
  unrecord : ¬ met → (t.files.find? (fun r => r.object = object)).map Extracted.details = none

theorem leaves (hfree : ∀ time d op, s.refuses time d op = none) (htree : fs.IsTree)
    (hnames : fs.SingleNames) (h : Start fs raw object) (rest : Path) {d : DirEntry} {z : Znode}
    (hd : fs.Below fs.root (components raw ++ rest) d) (hz : fs.znode d.object = .ok z)
    (hfile : IsFile z) :
    Leaves s fs (entriesOf fs (object, raw)) (Reached fs object rest) (components raw ++ rest)
      d.object z ((entriesOf fs (object, raw)).foldl (extractEntry s fs)
        (start (Disk.existing (fun _ => none)))) := by
  have horder := entriesOf_order htree h
  have hran : Ran s fs _ _ := ran hfree (entriesOf_planned htree h) horder
    (entriesOf_single htree hnames h)
  have hnotdir : z.fileType ≠ .dir := by
    rcases hfile with htype | htype <;> simp [htype]
  have hall : ∀ e ∈ entriesOf fs (object, raw), e.object = d.object → e.znode = some z := by
    intro e he hobject
    rcases of_mem_entriesOf htree h e he with ⟨_, d', -, -, hentry⟩ | ⟨-, hdir, -⟩
    · rw [hentry.znode, ← hentry.object, hobject, hz]
      rfl
    · rw [hobject] at hdir
      exact absurd (hdir z hz) hnotdir
  have hrecord := find_details hran.records hfile hall
  have hunmet : ¬ Reached fs object rest → ∀ e ∈ entriesOf fs (object, raw),
      ∀ z', e.znode = some z' → components e.rawPath ≠ components raw ++ rest := by
    intro hunreached e he z' hz' hpath
    obtain ⟨rest', d', -, hreached, hentry, -⟩ := exists_entryAt htree h he hz'
    rw [hentry.components, List.append_cancel_left_eq] at hpath
    rw [hpath] at hreached
    exact hunreached hreached
  have hnothing : ¬ Reached fs object rest → ((entriesOf fs (object, raw)).foldl
      (extractEntry s fs) (start (Disk.existing (fun _ => none)))).disk.contentAt
        (components raw ++ rest) = none := by
    intro hunreached
    rw [Disk.contentAt]
    split
    · rename_i i hi
      obtain ⟨e, he, z', hz', -, hpath⟩ := hran.laid.files _ i hi
      exact absurd hpath (hunmet hunreached e he z' hz')
    · rfl
  by_cases hreached : Reached fs object rest
  · obtain ⟨e, he, hentry⟩ := mem_entriesOf htree h hd hz hnotdir hreached
    have hze : e.znode = some z := hall e he hentry.object
    obtain ⟨before, after, hes⟩ := List.append_of_mem he
    have hleft := hran.left before e after hes z hze hfile
    have hready := readyIn_iff horder hes hze
    rw [hentry.components] at hready
    refine ⟨fun _ bytes hbytes hput => ?_, fun hnone => ?_, fun _ => ?_, fun hno => absurd hreached hno⟩
    · rw [← hentry.components]
      refine hleft.put bytes (by rw [hentry.object]; exact hbytes) (fun hlink => ?_)
      rw [hentry.components]
      exact hready.mp (hput hlink)
    · rw [← hentry.components]
      refine hleft.unput ?_
      rw [hentry.components, hentry.object]
      rcases hnone with hno | hnone | ⟨hlink, hunready⟩
      · exact absurd hreached hno
      · exact Or.inl hnone
      · exact Or.inr ⟨hlink, fun hr => hunready (hready.mpr hr)⟩
    · rw [hrecord, if_pos ⟨e, he, hentry.object⟩]
  · refine ⟨fun hmet => absurd hmet hreached, fun _ => hnothing hreached,
      fun hmet => absurd hmet hreached, fun _ => ?_⟩
    rw [hrecord, if_neg]
    rintro ⟨e, he, hobject⟩
    obtain ⟨rest', d', hd', hreached', hentry, -⟩ := exists_entryAt htree h he (hall e he hobject)
    have hpath := hnames.apart _ d' _ d hd' hd (by rw [← hentry.object, hobject])
    rw [List.append_cancel_left_eq] at hpath
    rw [hpath] at hreached'
    exact hreached hreached'

/-- Two runs leave the same of a file if and only if both meet it or neither does, and both put
it or neither does where it is a link. -/
theorem Leaves.same_iff {es es' : List Entry} {met met' : Prop} {path : Path} {z : Znode}
    {t t' : State} (h : Leaves s fs es met path object z t)
    (h' : Leaves s fs es' met' path object z t') (hfile : IsFile z) :
    (t.disk.contentAt path = t'.disk.contentAt path ∧
      (t.files.find? (fun r => r.object = object)).map Extracted.details =
        (t'.files.find? (fun r => r.object = object)).map Extracted.details) ↔
    (met ↔ met') ∧ (met → z.fileType = .symlink → ∀ target,
      fs.symlinkTarget object z = .ok target → (ReadyIn es path ↔ ReadyIn es' path)) := by
  constructor
  · rintro ⟨hcontent, hrecord⟩
    have hmet : met ↔ met' := by
      constructor
      · intro hmet
        by_contra hno
        rw [h.record hmet, h'.unrecord hno] at hrecord
        cases hrecord
      · intro hmet'
        by_contra hno
        rw [h.unrecord hno, h'.record hmet'] at hrecord
        cases hrecord
    refine ⟨hmet, fun hm hlink target htarget => ?_⟩
    have hbytes : bytesOf s fs object z = some target := by
      simp only [bytesOf, hlink, htarget]
      rfl
    constructor
    · intro hready
      by_contra hno
      rw [h.put hm target hbytes (fun _ => hready),
        h'.unput (Or.inr (Or.inr ⟨hlink, hno⟩))] at hcontent
      cases hcontent
    · intro hready
      by_contra hno
      rw [h.unput (Or.inr (Or.inr ⟨hlink, hno⟩)),
        h'.put (hmet.mp hm) target hbytes (fun _ => hready)] at hcontent
      cases hcontent
  · rintro ⟨hmet, hlinks⟩
    by_cases hm : met
    · refine ⟨?_, by rw [h.record hm, h'.record (hmet.mp hm)]⟩
      cases hbytes : bytesOf s fs object z with
      | none => rw [h.unput (Or.inr (Or.inl hbytes)), h'.unput (Or.inr (Or.inl hbytes))]
      | some bytes =>
        rcases hfile with htype | hlink
        · have hready : ∀ es, z.fileType = .symlink → ReadyIn es path := by
            intro es hlink
            rw [htype] at hlink
            cases hlink
          rw [h.put hm bytes hbytes (hready es), h'.put (hmet.mp hm) bytes hbytes (hready es')]
        · have htarget : ∃ target, fs.symlinkTarget object z = .ok target := by
            cases htarget : fs.symlinkTarget object z with
            | ok target => exact ⟨target, rfl⟩
            | error err =>
              simp only [bytesOf, hlink, htarget] at hbytes
              cases hbytes
          obtain ⟨target, htarget⟩ := htarget
          have hboth := hlinks hm hlink target htarget
          by_cases hready : ReadyIn es path
          · rw [h.put hm bytes hbytes (fun _ => hready),
              h'.put (hmet.mp hm) bytes hbytes (fun _ => hboth.mp hready)]
          · rw [h.unput (Or.inr (Or.inr ⟨hlink, hready⟩)),
              h'.unput (Or.inr (Or.inr ⟨hlink, fun hr => hready (hboth.mpr hr)⟩))]
    · have hm' : ¬ met' := fun hm' => hm (hmet.mpr hm')
      exact ⟨by rw [h.unput (Or.inl hm), h'.unput (Or.inl hm')],
        by rw [h.unrecord hm, h'.unrecord hm']⟩

/-- Nothing lies at the path of the manifest. -/
theorem no_manifest (htree : fs.IsTree) (h : Start fs raw object)
    (hno : ∀ d, ¬ fs.Below fs.root manifestPath d) {t : State}
    (hlaid : Laid (entriesOf fs (object, raw)) t.disk) : t.disk.node manifestPath = none := by
  have hpath : ∀ e ∈ entriesOf fs (object, raw), ∀ z, e.znode = some z →
      ¬ manifestPath <+: components e.rawPath := by
    intro e he z hz hpre
    obtain ⟨rest, d, hd, -, hentry, -⟩ := exists_entryAt htree h he hz
    rw [hentry.components] at hpre
    obtain ⟨tail, heq⟩ := hpre
    rw [← heq] at hd
    by_cases htail : tail = []
    · rw [htail, List.append_nil] at hd
      exact hno d hd
    · obtain ⟨c, hc, -, -⟩ := hd.split (by simp [manifestPath]) htail
      exact hno c hc
  cases hnode : t.disk.node manifestPath with
  | none => rfl
  | some n =>
    cases n with
    | dir =>
      obtain ⟨e, he, -, z, hz, hmakes⟩ := (hlaid.dirs _).mp hnode
      rcases hmakes with ⟨-, hpre⟩ | ⟨-, hpre⟩
      · exact absurd hpre (hpath e he z hz)
      · exact absurd (hpre.trans (List.dropLast_prefix _)) (hpath e he z hz)
    | file i =>
      obtain ⟨e, he, z, hz, -, heq⟩ := hlaid.files _ i hnode
      exact absurd (by rw [heq]) (hpath e he z hz)

/-- The manifest is written beside what was extracted. -/
theorem run_start (hfree : ∀ time d op, s.refuses time d op = none) (htree : fs.IsTree)
    (hnames : fs.SingleNames) (h : Start fs raw object)
    (hno : ∀ d, ¬ fs.Below fs.root manifestPath d) (render : ManifestOut → List UInt8)
    (dataset : String) (txg : Nat) {paths : List (List UInt8)}
    (hentries : entries fs paths = .ok (entriesOf fs (object, raw))) :
    ∃ out t, run s fs render dataset txg paths (Disk.existing (fun _ => none)) = .ok out ∧
      t = (entriesOf fs (object, raw)).foldl (extractEntry s fs)
        (start (Disk.existing (fun _ => none))) ∧ out.manifest.files = t.files ∧
      ∀ q, q ≠ manifestPath → out.disk.contentAt q = t.disk.contentAt q := by
  let es := entriesOf fs (object, raw)
  let t := es.foldl (extractEntry s fs) (start (Disk.existing (fun _ => none)))
  have hran : Ran s fs es t := ran hfree (entriesOf_planned htree h) (entriesOf_order htree h)
    (entriesOf_single htree hnames h)
  have hnone := no_manifest htree h hno hran.laid
  obtain ⟨⟨i, opened⟩, hcreate⟩ : ∃ made,
      t.disk.create (s.refuses es.length) manifestPath = .ok made :=
    Disk.create_root hnone (hfree es.length t.disk _)
  have hw := Disk.create_wrote hcreate (render (manifestOf s dataset txg t))
  have hi : i = manifestPath := by
    rcases hw.named with hfile | ⟨-, hi⟩
    · rw [hnone] at hfile
      cases hfile
    · exact hi
  rw [hi] at hw
  refine ⟨⟨opened.store i (render (manifestOf s dataset txg t)), manifestOf s dataset txg t⟩, t,
    ?_, rfl, rfl, fun q hq => ?_⟩
  · rw [run, hentries]
    have hlen : (entriesOf fs (object, raw)).length = es.length := rfl
    dsimp only
    rw [hlen, write, hcreate]
  · rw [hi, hw.contentAt (fun q hq => (hran.own q _ hq).symm), if_neg hq]

end Outcome

/-- In a tree without hard links, none of whose names is that of the manifest, an extraction of a
path into an empty directory leaves what an extraction of the whole tree leaves of each file at or
below it if and only if both walks reach the same files and make the directories of the same
links. -/
theorem part_same_iff (s : Setting) (hfree : ∀ time d op, s.refuses time d op = none)
    (fs : Filesystem) (htree : fs.IsTree) (hnames : fs.SingleNames) (hlooks : fs.LooksUp)
    (hno : ∀ d, ¬ fs.Below fs.root manifestPath d) (render : ManifestOut → List UInt8)
    (dataset : String) (txg : Nat) (asked : List UInt8) (object : Nat)
    (hasked : fs.Names (components asked) object) :
    ∃ whole part,
      run s fs render dataset txg [] (Disk.existing (fun _ => none)) = .ok whole ∧
      run s fs render dataset txg [asked] (Disk.existing (fun _ => none)) = .ok part ∧
      (SamePart fs whole part (components asked) ↔ Agrees fs asked object) := by
  have hroot : Start fs [] fs.root := ⟨by simp, Or.inl ⟨components_nil, rfl⟩⟩
  have hstart : Start fs (trimmed asked) object :=
    ⟨head_trimmed asked, by rw [components_trimmed]; exact hasked⟩
  have hlookup : fs.lookupBytes asked = .ok object := hasked.lookup hlooks htree
  have hentries : entries fs [asked] = .ok (entriesOf fs (object, trimmed asked)) := by
    rw [entries, if_neg (List.cons_ne_nil _ _), rootsOf, hlookup, rootsOf]
    show Except.ok (List.flatMap _ [_]) = _
    rw [List.flatMap_singleton]
    rfl
  have hall : entries fs [] = .ok (entriesOf fs (fs.root, [])) := rfl
  obtain ⟨whole, tw, hwhole, htw, hfilesw, hcontentw⟩ :=
    run_start hfree htree hnames hroot hno render dataset txg hall
  obtain ⟨part, tp, hpart, htp, hfilesp, hcontentp⟩ :=
    run_start hfree htree hnames hstart hno render dataset txg hentries
  refine ⟨whole, part, hwhole, hpart, ?_⟩
  have hsame : ∀ rest d z, fs.Below fs.root (components asked ++ rest) d →
      fs.znode d.object = .ok z → IsFile z →
        (Same whole part (components asked ++ rest) d.object ↔
          (Reached fs fs.root (components asked ++ rest) ↔ Reached fs object rest) ∧
          (Reached fs fs.root (components asked ++ rest) → z.fileType = .symlink → ∀ target,
            fs.symlinkTarget d.object z = .ok target →
              (ReadyIn (entriesOf fs (fs.root, [])) (components asked ++ rest) ↔
                ReadyIn (entriesOf fs (object, trimmed asked)) (components asked ++ rest)))) := by
    intro rest d z hd hz hfile
    have hne : components asked ++ rest ≠ manifestPath := by
      intro heq
      rw [heq] at hd
      exact hno d hd
    have hleavesw := leaves hfree htree hnames hroot (components asked ++ rest)
      (by rw [components_nil]; exact hd) hz hfile
    have hleavesp := leaves hfree htree hnames hstart rest
      (by rw [components_trimmed]; exact hd) hz hfile
    rw [components_nil, List.nil_append, ← htw] at hleavesw
    rw [components_trimmed, ← htp] at hleavesp
    rw [← hleavesw.same_iff hleavesp hfile, ← hcontentw _ hne, ← hcontentp _ hne, ← hfilesw,
      ← hfilesp]
    exact ⟨fun h => ⟨h.bytes, h.record⟩, fun h => ⟨h.1, h.2⟩⟩
  constructor
  · intro h
    exact ⟨fun rest d z hd hz hfile => ((hsame rest d z hd hz hfile).mp (h rest d z hd hz hfile)).1,
      fun rest d z target hd hz hlink htarget hreached =>
        ((hsame rest d z hd hz (Or.inr hlink)).mp (h rest d z hd hz (Or.inr hlink))).2 hreached
          hlink target htarget⟩
  · intro h rest d z hd hz hfile
    exact (hsame rest d z hd hz hfile).mpr ⟨h.reached rest d z hd hz hfile,
      fun hreached hlink target htarget => h.ready rest d z target hd hz hlink htarget hreached⟩

/-! ## A link alone in its directory -/

def nameA : DirEntry := { name := "a", raw := [97], object := 1, fileType := .dir }

def nameL : DirEntry := { name := "l", raw := [108], object := 2, fileType := .symlink }

/-- A tree of one directory that holds one link. -/
def linkNames : Filesystem where
  root := 34
  readDir object :=
    .ok (if object = 34 then [nameA] else if object = 1 then [nameL] else [])
  znode object := .ok (if object = 2 then znodeOf 0o120777 3 else znodeOf 0o40755 1)
  object _ := .error (.io "no object")
  symlinkTarget _ _ := .ok [97, 46, 99]
  xattrs _ := []
  lookupBytes _ := .ok 34

def linkTree : Filesystem :=
  { linkNames with
    lookupBytes := fun path =>
      linkNames.lookupFrom (fun _ _ => none) (Ondisk.fromUtf8Lossy path) linkNames.root
        ((path.splitOn 47).filter (fun part => part ≠ [] ∧ part ≠ [46])) }

theorem linkTree_looksUp : linkTree.LooksUp :=
  have hread : linkNames.readDir = linkTree.readDir := rfl
  ⟨fun _ _ => none, fun _ => lookupFrom_congr hread _ _ _ _⟩

theorem linkTree_below {path : Path} {e : DirEntry} (h : linkTree.Below linkTree.root path e) :
    path = [nameA.raw] ∧ e = nameA ∨ path = [nameA.raw, nameL.raw] ∧ e = nameL :=
  h.of_pair rfl rfl (by decide)

theorem linkTree_isTree : linkTree.IsTree :=
  isTree_of_pair (d := nameA) (c := nameL) rfl rfl (by decide) (by decide)
    ⟨by decide, by decide, by decide, by decide, by decide⟩
    ⟨by decide, by decide, by decide, by decide, by decide⟩ (by decide)
    (fun z h => by cases h; decide)

theorem linkTree_single : linkTree.SingleNames where
  apart path e path' e' h h' heq := by
    rcases linkTree_below h with ⟨rfl, rfl⟩ | ⟨rfl, rfl⟩
    · rcases linkTree_below h' with ⟨rfl, rfl⟩ | ⟨rfl, rfl⟩
      · rfl
      · cases heq
    · rcases linkTree_below h' with ⟨rfl, rfl⟩ | ⟨rfl, rfl⟩
      · cases heq
      · rfl
  root path e h := by
    rcases linkTree_below h with ⟨-, rfl⟩ | ⟨-, rfl⟩
    · decide
    · decide

theorem linkTree_a : linkTree.Below linkTree.root [nameA.raw] nameA :=
  .here (List.mem_singleton_self _)

theorem linkTree_l : linkTree.Below linkTree.root [nameA.raw, nameL.raw] nameL :=
  .there (List.mem_singleton_self _) rfl (.here (List.mem_singleton_self _))

theorem linkTree_names : linkTree.Names (components [97]) 1 := by
  have hpath : components [97] = [[97]] := by decide
  rw [hpath]
  exact Or.inr ⟨nameA, linkTree_a, rfl⟩

theorem linkTree_no_manifest (d : DirEntry) : ¬ linkTree.Below linkTree.root manifestPath d := by
  intro h
  rcases linkTree_below h with ⟨hpath, -⟩ | ⟨hpath, -⟩
  · exact absurd hpath (by decide)
  · exact absurd hpath (by decide)

theorem part_same_iff_link :
    ∃ whole part,
      run plain linkTree (fun _ => []) "tank/fs" 7 [] (Disk.existing (fun _ => none)) =
        .ok whole ∧
      run plain linkTree (fun _ => []) "tank/fs" 7 [[97]] (Disk.existing (fun _ => none)) =
        .ok part ∧
      (SamePart linkTree whole part (components [97]) ↔ Agrees linkTree [97] 1) :=
  part_same_iff plain (fun _ _ _ => rfl) linkTree linkTree_isTree linkTree_single linkTree_looksUp
    linkTree_no_manifest (fun _ => []) "tank/fs" 7 [97] 1 linkTree_names

/-- The content at the path of the link after a run. -/
def linkAfter (paths : List (List UInt8)) : Option (Option (List UInt8)) :=
  (run plain linkTree (fun _ => []) "tank/fs" 7 paths
    (Disk.existing (fun _ => none))).toOption.map (fun out => out.disk.contentAt [[97], [108]])

theorem linkAfter_eq : linkAfter [] = some (some [97, 46, 99]) ∧ linkAfter [[97]] = some none := by
  constructor <;> decide

/-- The link is written with the whole tree, and not from its directory. -/
theorem link_not_written :
    ∃ whole part,
      run plain linkTree (fun _ => []) "tank/fs" 7 [] (Disk.existing (fun _ => none)) =
        .ok whole ∧
      run plain linkTree (fun _ => []) "tank/fs" 7 [[97]] (Disk.existing (fun _ => none)) =
        .ok part ∧
      ¬ SamePart linkTree whole part (components [97]) := by
  obtain ⟨hw, hp⟩ := linkAfter_eq
  rw [linkAfter] at hw hp
  cases hwhole : run plain linkTree (fun _ => []) "tank/fs" 7 [] (Disk.existing (fun _ => none)) with
  | error err =>
    rw [hwhole] at hw
    cases hw
  | ok whole =>
    cases hpart : run plain linkTree (fun _ => []) "tank/fs" 7 [[97]]
        (Disk.existing (fun _ => none)) with
    | error err =>
      rw [hpart] at hp
      cases hp
    | ok part =>
      rw [hwhole] at hw
      rw [hpart] at hp
      have hw : whole.disk.contentAt [[97], [108]] = some [97, 46, 99] := Option.some.inj hw
      have hp : part.disk.contentAt [[97], [108]] = none := Option.some.inj hp
      refine ⟨whole, part, rfl, rfl, fun h => ?_⟩
      have hpath : components [97] ++ [[108]] = [[97], [108]] := by decide
      have hbelow : linkTree.Below linkTree.root (components [97] ++ [[108]]) nameL := by
        rw [hpath]
        exact linkTree_l
      have hsame := (h [[108]] _ (znodeOf 0o120777 3) hbelow rfl (Or.inr (by decide))).bytes
      rw [hpath, hw, hp] at hsame
      cases hsame

end Files
end ZvolRescue
