import ZvolRescue.Dsl.Walk

/-!
# What the walk accounts for

Heads and child directories that cannot be read are complained of.  Snapshots are not, nor are
entries that are no numbers or directories that have no head dataset, and one head can be listed
for two directories.  Where a pool has none of these the walk accounts for everything it meets, and
only there (`walk_accounts_iff`).
-/

namespace ZvolRescue
namespace Dsl

open Lib Ondisk Zio Dmu

section Accounts

variable (mos : DnodeArray Id)

/-- The head dataset that a directory names, when it names one and both can be read. -/
def headDataset (dirObj : Nat) : Option (Nat × DslDatasetPhys) :=
  match (readDir mos dirObj).run with
  | .error _ => none
  | .ok dir =>
    if dir.headDatasetObj = 0 then none
    else (readDataset mos dir.headDatasetObj).run.toOption.map
      (fun phys => (dir.headDatasetObj, phys))

/-- The map of the snapshots of a directory's head dataset. -/
def snapnames (dirObj : Nat) : Option Nat :=
  (headDataset mos dirObj).bind
    (fun h => if h.2.snapnamesZapobj = 0 then none else some h.2.snapnamesZapobj)

/-- The entries of that map, where it can be read. -/
def snapEntries (dirObj : Nat) : List Zap.Entry :=
  match snapnames mos dirObj with
  | none => []
  | some zapObj =>
    match (mos.zap zapObj).run with
    | .error _ => []
    | .ok entries => entries

/-- The snapshot that an entry names, when it can be read. -/
def snapObject (e : Zap.Entry) : Option Nat :=
  match e.value with
  | .u64 s => if (readDataset mos s).run.toOption.isSome then some s else none
  | _ => none

/-- The datasets that a directory gives: its head and the snapshots, where they can be read. -/
def objects (dirObj : Nat) : List Nat :=
  match headDataset mos dirObj with
  | none => []
  | some (head, _) => head :: (snapEntries mos dirObj).filterMap (snapObject mos)

/-- One of these directories can be read and has this head dataset. -/
def HeadOfSome (dirs : List Nat) (obj : Nat) : Prop :=
  obj ≠ 0 ∧ ∃ o ∈ dirs, ∃ dir, (readDir mos o).run = .ok dir ∧ dir.headDatasetObj = obj

/-- A dataset is listed. -/
def Listed (w : Walk) (obj : Nat) : Prop := ∃ d ∈ w.tree.datasets, d.object = obj

/-- An error names a dataset. -/
def DatasetError (w : Walk) (obj : Nat) : Prop :=
  ∃ name e, WalkError.dataset name obj e ∈ w.tree.errors

/-- The head dataset of a directory is listed, or an error names it or the directory. -/
def DirectoryAccounted (w : Walk) (dirObj : Nat) : Prop :=
  (∃ dir, (readDir mos dirObj).run = .ok dir ∧ dir.headDatasetObj ≠ 0 ∧
    (Listed w dir.headDatasetObj ∨ DatasetError w dir.headDatasetObj)) ∨
  (∃ name, WalkError.revisited name dirObj ∈ w.tree.errors) ∨
  ∃ name e, WalkError.directory name dirObj e ∈ w.tree.errors

/-- What a walk lists and complains of accounts for what it read. -/
structure Accounts (w : Walk) : Prop where
  /-- No head dataset is listed twice. -/
  once : ∀ obj, HeadOfSome mos w.seen obj → (w.tree.datasets.map Dataset.object).count obj ≤ 1
  heads : ∀ o ∈ w.seen, ∀ dir, (readDir mos o).run = .ok dir → dir.headDatasetObj ≠ 0 →
    Listed w dir.headDatasetObj ∨ DatasetError w dir.headDatasetObj
  children : ∀ o ∈ w.seen, ∀ e ∈ childEntries mos o, isBookkeeping e.name = false →
    ∃ c, e.value = .u64 c ∧ DirectoryAccounted mos w c
  snapshots : ∀ o ∈ w.seen, ∀ e ∈ snapEntries mos o, ∃ s, e.value = .u64 s ∧
    ((∃ d ∈ w.tree.datasets, d.object = s ∧ d.snapshot = true) ∨ DatasetError w s)

/-- A trip over the directories of a pool meets nothing that a walk cannot account for. -/
structure Regular (t : Trip Node) : Prop where
  /-- No head dataset that can be read is that of two directories, or a snapshot, too. -/
  heads : ∀ obj, HeadOfSome mos (t.keys Prod.fst) obj →
    ((t.keys Prod.fst).flatMap (objects mos)).count obj ≤ 1
  /-- Every child is a number, and that of a directory with a head dataset, unless the directory
  cannot be read or is met again. -/
  children : ∀ o ∈ t.keys Prod.fst, ∀ e ∈ childEntries mos o, isBookkeeping e.name = false →
    ∃ c, e.value = .u64 c ∧
      ((∃ b ∈ t.refused, b.1 = c) ∨ ∀ dir, (readDir mos c).run = .ok dir → dir.headDatasetObj ≠ 0)
  /-- Every snapshot is a number, and can be read, unless it is a head dataset, too. -/
  snapshots : ∀ o ∈ t.keys Prod.fst, ∀ e ∈ snapEntries mos o, ∃ s, e.value = .u64 s ∧
    ((∃ phys, (readDataset mos s).run = .ok phys) ∨ HeadOfSome mos (t.keys Prod.fst) s)

end Accounts

/-! ## What can be described -/

section Described

variable {mos : DnodeArray Id} {originSnap : Nat}

variable (mos originSnap) in
/-- A dataset is described exactly where it can be read. -/
theorem describe_cases (obj : Nat) (name : String) (dir : Owner) :
    (∃ e, (readDataset mos obj).run = .error e ∧
        (describe mos obj name dir originSnap).run = .error e) ∨
      ∃ phys d, (readDataset mos obj).run = .ok phys ∧
        (describe mos obj name dir originSnap).run = .ok d ∧
        d.object = obj ∧ d.phys = phys ∧ d.guid = phys.guid ∧ d.snapshot = phys.isSnapshot := by
  rw [describe]
  simp only [Id.run_bind]
  cases hread : (readDataset mos obj).run with
  | error e => exact Or.inl ⟨e, rfl, rfl⟩
  | ok phys => exact Or.inr ⟨phys, _, rfl, rfl, rfl, rfl, rfl, rfl⟩

theorem snapObject_some {e : Zap.Entry} {s : Nat} {phys : DslDatasetPhys} (hs : e.value = .u64 s)
    (hread : (readDataset mos s).run = .ok phys) : snapObject mos e = some s := by
  rw [snapObject, hs]
  simp [hread, Except.toOption]

theorem of_snapObject {e : Zap.Entry} {s : Nat} (h : snapObject mos e = some s) :
    e.value = .u64 s ∧ ∃ phys, (readDataset mos s).run = .ok phys := by
  rw [snapObject] at h
  cases hvalue : e.value with
  | u64 obj =>
    rw [hvalue] at h
    cases hread : (readDataset mos obj).run with
    | error err => simp [hread, Except.toOption] at h
    | ok phys =>
      simp only [hread, Except.toOption, Option.isSome_some, if_pos] at h
      cases h
      exact ⟨rfl, phys, hread⟩
  | _ =>
    rw [hvalue] at h
    cases h

/-- Snapshots that are those of the entries that can be read. -/
structure SnapsOf (mos : DnodeArray Id) (entries : List Zap.Entry) (snaps : List Dataset) :
    Prop where
  objects : (snaps.map Dataset.object).Perm (entries.filterMap (snapObject mos))
  described : ∀ d ∈ snaps, d.snapshot = true ∧
    ∃ phys, (readDataset mos d.object).run = .ok phys ∧ d.guid = phys.guid

namespace SnapsOf

variable {entries : List Zap.Entry} {snaps : List Dataset}

theorem nil : SnapsOf mos [] [] := ⟨List.Perm.nil, fun d hd => by cases hd⟩

/-- One more entry, which is no snapshot that can be read. -/
theorem skip (h : SnapsOf mos entries snaps) {e : Zap.Entry} (he : snapObject mos e = none) :
    SnapsOf mos (e :: entries) snaps where
  objects := by
    rw [List.filterMap_cons_none he]
    exact h.objects
  described := h.described

/-- One more entry, and its snapshot. -/
theorem cons (h : SnapsOf mos entries snaps) {e : Zap.Entry} {d : Dataset} {phys : DslDatasetPhys}
    (he : e.value = .u64 d.object) (hsnap : d.snapshot = true)
    (hread : (readDataset mos d.object).run = .ok phys) (hguid : d.guid = phys.guid) :
    SnapsOf mos (e :: entries) (d :: snaps) where
  objects := by
    rw [List.filterMap_cons_some (snapObject_some he hread)]
    exact h.objects.cons _
  described d' hd' := by
    rcases List.mem_cons.mp hd' with rfl | hd'
    · exact ⟨hsnap, phys, hread, hguid⟩
    · exact h.described d' hd'

theorem sorted (h : SnapsOf mos entries snaps) (le : Dataset → Dataset → Bool) :
    SnapsOf mos entries (snaps.mergeSort le) where
  objects := ((List.mergeSort_perm snaps le).map _).trans h.objects
  described d hd := h.described d (List.mem_mergeSort.mp hd)

/-- The snapshot of an entry that can be read. -/
theorem complete (h : SnapsOf mos entries snaps) {e : Zap.Entry} (he : e ∈ entries) {s : Nat}
    {phys : DslDatasetPhys} (hs : e.value = .u64 s) (hread : (readDataset mos s).run = .ok phys) :
    ∃ d ∈ snaps, d.object = s ∧ d.snapshot = true ∧ d.guid = phys.guid := by
  have hmem : s ∈ snaps.map Dataset.object :=
    h.objects.mem_iff.mpr (List.mem_filterMap.mpr ⟨e, he, snapObject_some hs hread⟩)
  obtain ⟨d, hd, rfl⟩ := List.mem_map.mp hmem
  obtain ⟨hsnap, phys', hread', hguid⟩ := h.described d hd
  rw [hread] at hread'
  cases hread'
  exact ⟨d, hd, rfl, hsnap, hguid⟩

end SnapsOf

theorem describeEach_snapsOf (name : String) (dir : Owner) (entries : List Zap.Entry) :
    SnapsOf mos entries (describeEach mos name dir originSnap entries).run := by
  induction entries with
  | nil => exact SnapsOf.nil
  | cons e rest ih =>
    rw [describeEach]
    cases hvalue : e.value with
    | u64 obj =>
      simp only [Id.run_bind]
      rcases describe_cases mos originSnap obj s!"{name}@{e.name}" dir with
        ⟨err, hread, hdescribe⟩ | ⟨phys, d, hread, hdescribe, hobj, -, hguid, -⟩
      · have hnone : snapObject mos e = none := by
          rw [snapObject, hvalue]
          simp [hread, Except.toOption]
        rw [hdescribe]
        exact ih.skip hnone
      · rw [hdescribe]
        have hvalue' : e.value = .u64 ({ d with snapshot := true } : Dataset).object := by
          rw [hvalue, ← hobj]
        have hread' : (readDataset mos ({ d with snapshot := true } : Dataset).object).run =
            .ok phys := by
          show (readDataset mos d.object).run = _
          rw [hobj, hread]
        exact ih.cons hvalue' rfl hread' hguid
    | _ =>
      refine ih.skip ?_
      rw [snapObject, hvalue]

variable (originSnap) in
/-- What a directory gives: its head dataset and the snapshots that can be read. -/
theorem listing_cases (a : Node) :
    (headDataset mos a.1 = none ∧ listing mos originSnap a = []) ∨
      ∃ obj phys head snaps, headDataset mos a.1 = some (obj, phys) ∧
        listing mos originSnap a = head :: snaps ∧ head.object = obj ∧ head.guid = phys.guid ∧
        head.snapshot = phys.isSnapshot ∧ SnapsOf mos (snapEntries mos a.1) snaps := by
  cases hdir : (readDir mos a.1).run with
  | error e =>
    refine Or.inl ⟨?_, ?_⟩
    · rw [headDataset, hdir]
    · rw [listing, hdir]
  | ok dir =>
    by_cases hnone : dir.headDatasetObj = 0
    · refine Or.inl ⟨?_, ?_⟩
      · rw [headDataset, hdir]
        exact if_pos hnone
      · rw [listing, hdir]
        simp [headOf, hnone]
    · rcases describe_cases mos originSnap dir.headDatasetObj a.2
          { originObj := dir.originObj, propsZapobj := dir.propsZapobj } with
        ⟨err, hread, hdescribe⟩ | ⟨phys, d, hread, hdescribe, hobj, hphys, hguid, hsnap⟩
      · refine Or.inl ⟨?_, ?_⟩
        · rw [headDataset, hdir]
          simp [hnone, hread, Except.toOption]
        · rw [listing, hdir]
          simp [headOf, hnone, hdescribe]
      · have hhead : headDataset mos a.1 = some (dir.headDatasetObj, phys) := by
          rw [headDataset, hdir]
          simp [hnone, hread, Except.toOption]
        refine Or.inr ⟨_, phys, d, (snapshots mos d a.2 originSnap).run, hhead, ?_, hobj, hguid,
          hsnap, ?_⟩
        · rw [listing, hdir]
          simp [headOf, hnone, hdescribe]
        rw [snapEntries, snapnames, hhead, snapshots, hphys]
        simp only [Option.bind_some]
        by_cases hmap : phys.snapnamesZapobj = 0
        · rw [if_pos hmap, if_pos hmap]
          exact SnapsOf.nil
        · rw [if_neg hmap, if_neg hmap]
          simp only [Id.run_bind]
          cases (mos.zap phys.snapnamesZapobj).run with
          | error e => exact SnapsOf.nil
          | ok entries => exact (describeEach_snapsOf _ _ entries).sorted _

theorem childOf_some (name : String) {e : Zap.Entry} {c : Nat} (hvalue : e.value = .u64 c)
    (hbook : isBookkeeping e.name = false) : ∃ b : Node, childOf name e = some b ∧ b.1 = c := by
  rw [childOf, hvalue]
  simp [hbook]

theorem headDataset_some {dirObj obj : Nat} {phys : DslDatasetPhys}
    (h : headDataset mos dirObj = some (obj, phys)) :
    ∃ dir, (readDir mos dirObj).run = .ok dir ∧ dir.headDatasetObj = obj ∧ obj ≠ 0 ∧
      (readDataset mos obj).run = .ok phys := by
  rw [headDataset] at h
  cases hdir : (readDir mos dirObj).run with
  | error e =>
    rw [hdir] at h
    cases h
  | ok dir =>
    rw [hdir] at h
    simp only at h
    by_cases hnone : dir.headDatasetObj = 0
    · rw [if_pos hnone] at h
      cases h
    · rw [if_neg hnone] at h
      cases hread : (readDataset mos dir.headDatasetObj).run with
      | error e =>
        rw [hread] at h
        cases h
      | ok phys' =>
        rw [hread] at h
        cases h
        exact ⟨dir, rfl, rfl, hnone, hread⟩

theorem headDataset_eq {dirObj : Nat} {dir : DslDirPhys} {phys : DslDatasetPhys}
    (hdir : (readDir mos dirObj).run = .ok dir) (hhead : dir.headDatasetObj ≠ 0)
    (hread : (readDataset mos dir.headDatasetObj).run = .ok phys) :
    headDataset mos dirObj = some (dir.headDatasetObj, phys) := by
  rw [headDataset, hdir]
  simp [hhead, hread, Except.toOption]

/-- Whatever is listed can be read, and has the GUID that was read. -/
theorem listing_described {a : Node} {d : Dataset} (hd : d ∈ listing mos originSnap a) :
    ∃ phys, (readDataset mos d.object).run = .ok phys ∧ d.guid = phys.guid := by
  rcases listing_cases originSnap a with ⟨-, hnil⟩ |
    ⟨obj, phys, head, snaps, hhead, hlist, hobj, hguid, -, hsnaps⟩
  · rw [hnil] at hd
    cases hd
  · rw [hlist] at hd
    rcases List.mem_cons.mp hd with rfl | hd
    · obtain ⟨-, -, -, -, hread⟩ := headDataset_some hhead
      exact ⟨phys, hobj ▸ hread, hguid⟩
    · exact (hsnaps.described d hd).2

variable (mos originSnap) in
/-- What is listed for a directory are the datasets that it gives. -/
theorem listing_objects (a : Node) :
    ((listing mos originSnap a).map Dataset.object).Perm (objects mos a.1) := by
  rcases listing_cases originSnap a with ⟨hhead, hnil⟩ |
    ⟨obj, phys, head, snaps, hhead, hlist, hobj, -, -, hsnaps⟩
  · rw [hnil, objects, hhead]
    exact List.Perm.nil
  · rw [hlist, objects, hhead, List.map_cons, hobj]
    exact hsnaps.objects.cons obj

end Described

/-! ## Where the walk accounts for everything -/

section Walked

variable {mos : DnodeArray Id} {originSnap : Nat} {w : Walk} {t : Trip Node}

variable (mos t) in
/-- An error is about what was refused, what cannot be read or a head dataset. -/
def Founded : WalkError → Prop
  | .revisited _ dirObj => ∃ b ∈ t.refused, b.1 = dirObj
  | .directory _ dirObj e => (readDir mos dirObj).run = .error e
  | .dataset _ obj _ => HeadOfSome mos (t.keys Prod.fst) obj
  | .children _ _ _ => True

namespace Stands

variable (h : Stands mos originSnap w t)

include h

theorem mem_seen {o : Nat} : o ∈ w.seen ↔ ∃ a ∈ t.visited, a.1 = o := by
  rw [h.seen, Trip.keys, List.mem_map]

theorem mem_datasets {d : Dataset} :
    d ∈ w.tree.datasets ↔ ∃ a ∈ t.visited, d ∈ listing mos originSnap a := by
  rw [h.datasets, List.mem_flatMap]

/-- What is listed are the datasets of the directories that were read. -/
theorem objects_perm :
    (w.tree.datasets.map Dataset.object).Perm (w.seen.flatMap (objects mos)) := by
  rw [h.datasets, h.seen, Trip.keys]
  induction t.visited with
  | nil => exact List.Perm.nil
  | cons a l ih =>
    rw [List.flatMap_cons, List.map_append, List.map_cons, List.flatMap_cons]
    exact (listing_objects mos originSnap a).append ih

/-- The head dataset of a directory that was read is listed, or an error names it. -/
theorem head_accounted {o : Nat} (ho : o ∈ w.seen) {dir : DslDirPhys}
    (hdir : (readDir mos o).run = .ok dir) (hhead : dir.headDatasetObj ≠ 0) :
    Listed w dir.headDatasetObj ∨ DatasetError w dir.headDatasetObj := by
  obtain ⟨a, ha, rfl⟩ := h.mem_seen.mp ho
  rcases describe_cases mos originSnap dir.headDatasetObj a.2
      { originObj := dir.originObj, propsZapobj := dir.propsZapobj } with
    ⟨err, -, hdescribe⟩ | ⟨phys, -, hread, -⟩
  · refine Or.inr ⟨a.2, err, (h.errors _).mpr (Or.inr ⟨a, ha, ?_⟩)⟩
    rw [complaints, hdir]
    simp [headOf, hhead, hdescribe]
  · have hsome := headDataset_eq hdir hhead hread
    rcases listing_cases originSnap a with ⟨hnone, -⟩ |
      ⟨obj, phys', head, snaps, hhead', hlist, hobj, -⟩
    · rw [hsome] at hnone
      cases hnone
    · rw [hsome] at hhead'
      cases hhead'
      refine Or.inl ⟨head, h.mem_datasets.mpr ⟨a, ha, ?_⟩, hobj⟩
      rw [hlist]
      exact List.mem_cons_self

/-- A directory that was met and has a head dataset is accounted for. -/
theorem directory_accounted {b : Node} (hb : t.Met Prod.fst b)
    (hhead : ∀ dir, (readDir mos b.1).run = .ok dir → dir.headDatasetObj ≠ 0) :
    DirectoryAccounted mos w b.1 := by
  rcases hb with hkey | hrefused
  · rw [← h.seen] at hkey
    cases hdir : (readDir mos b.1).run with
    | error e =>
      obtain ⟨a, ha, hab⟩ := h.mem_seen.mp hkey
      refine Or.inr (Or.inr ⟨a.2, e, (h.errors _).mpr (Or.inr ⟨a, ha, ?_⟩)⟩)
      rw [complaints, hab, hdir]
      exact List.mem_singleton_self _
    | ok dir =>
      have hne := hhead dir hdir
      exact Or.inl ⟨dir, hdir, hne, h.head_accounted hkey hdir hne⟩
  · exact Or.inr (Or.inl ⟨b.2, (h.errors _).mpr (Or.inl ⟨b, hrefused, rfl⟩)⟩)

theorem error_founded {e : WalkError} (he : e ∈ w.tree.errors) : Founded mos t e := by
  rcases (h.errors _).mp he with ⟨b, hb, rfl⟩ | ⟨a, ha, hcomplaint⟩
  · exact ⟨b, hb, rfl⟩
  · rw [complaints] at hcomplaint
    cases hdir : (readDir mos a.1).run with
    | error err =>
      rw [hdir] at hcomplaint
      rw [List.mem_singleton.mp hcomplaint]
      exact hdir
    | ok dir =>
      rw [hdir] at hcomplaint
      rcases List.mem_append.mp hcomplaint with hhead | hchildren
      · rw [headOf] at hhead
        by_cases hnone : dir.headDatasetObj = 0
        · simp [hnone] at hhead
        · rw [if_neg hnone] at hhead
          split at hhead
          · rw [List.mem_singleton.mp hhead]
            exact ⟨hnone, a.1, List.mem_map_of_mem ha, dir, hdir, rfl⟩
          · cases hhead
      · split at hchildren
        · cases hchildren
        · split at hchildren
          · rw [List.mem_singleton.mp hchildren]
            trivial
          · cases hchildren

/-- What is accounted for was refused, or has a head dataset where it can be read. -/
theorem of_directory_accounted {c : Nat} (hacc : DirectoryAccounted mos w c) :
    (∃ b ∈ t.refused, b.1 = c) ∨
      ∀ dir, (readDir mos c).run = .ok dir → dir.headDatasetObj ≠ 0 := by
  obtain ⟨dir, hdir, hne, -⟩ | ⟨name, hrevisited⟩ | ⟨name, e, hdirectory⟩ := hacc
  · refine Or.inr (fun dir' hdir' => ?_)
    rw [hdir] at hdir'
    cases hdir'
    exact hne
  · exact Or.inl (h.error_founded hrevisited)
  · refine Or.inr (fun dir hdir => ?_)
    rw [h.error_founded hdirectory] at hdir
    cases hdir

/-- A snapshot that can be read is listed. -/
theorem snapshot_listed {o : Nat} (ho : o ∈ w.seen) {e : Zap.Entry} (he : e ∈ snapEntries mos o)
    {s : Nat} {phys : DslDatasetPhys} (hs : e.value = .u64 s)
    (hread : (readDataset mos s).run = .ok phys) :
    ∃ d ∈ w.tree.datasets, d.object = s ∧ d.snapshot = true := by
  obtain ⟨a, ha, rfl⟩ := h.mem_seen.mp ho
  rcases listing_cases originSnap a with ⟨hnone, -⟩ |
    ⟨obj, phys', head, snaps, -, hlist, -, -, -, hsnaps⟩
  · rw [snapEntries, snapnames, hnone] at he
    cases he
  · obtain ⟨d, hd, hobj, hsnap, -⟩ := hsnaps.complete he hs hread
    refine ⟨d, h.mem_datasets.mpr ⟨a, ha, ?_⟩, hobj, hsnap⟩
    rw [hlist]
    exact List.mem_cons_of_mem _ hd

theorem listed_read {obj : Nat} (hlisted : Listed w obj) :
    ∃ phys, (readDataset mos obj).run = .ok phys := by
  obtain ⟨d, hd, rfl⟩ := hlisted
  obtain ⟨a, -, hda⟩ := h.mem_datasets.mp hd
  obtain ⟨phys, hread, -⟩ := listing_described hda
  exact ⟨phys, hread⟩

/-- The walk accounts for all it met exactly where the trip is regular. -/
theorem accounts_iff (hsettled : t.Settled Prod.fst (next mos) []) :
    Accounts mos w ↔ Regular mos t := by
  have honce : ∀ obj, (w.tree.datasets.map Dataset.object).count obj =
      (w.seen.flatMap (objects mos)).count obj := fun obj => h.objects_perm.count_eq obj
  constructor
  · intro hacc
    refine ⟨?_, ?_, ?_⟩
    · rw [← h.seen]
      intro obj hobj
      rw [← honce]
      exact hacc.once obj hobj
    · rw [← h.seen]
      intro o ho e he hbook
      obtain ⟨c, hc, haccounted⟩ := hacc.children o ho e he hbook
      exact ⟨c, hc, h.of_directory_accounted haccounted⟩
    · rw [← h.seen]
      intro o ho e he
      obtain ⟨s, hs, ⟨d, hd, hobj, -⟩ | herror⟩ := hacc.snapshots o ho e he
      · exact ⟨s, hs, Or.inl (h.listed_read ⟨d, hd, hobj⟩)⟩
      · obtain ⟨name, err, hmem⟩ := herror
        exact ⟨s, hs, Or.inr (h.seen ▸ h.error_founded hmem)⟩
  · rintro ⟨hheads, hchildren, hsnapshots⟩
    rw [← h.seen] at hheads hchildren hsnapshots
    refine ⟨fun obj hobj => ?_, fun o ho dir hdir hhead => h.head_accounted ho hdir hhead,
      fun o ho e he hbook => ?_, fun o ho e he => ?_⟩
    · rw [honce]
      exact hheads obj hobj
    · obtain ⟨c, hc, ⟨b, hb, rfl⟩ | hhead⟩ := hchildren o ho e he hbook
      · exact ⟨b.1, hc, Or.inr (Or.inl ⟨b.2, (h.errors _).mpr (Or.inl ⟨b, hb, rfl⟩)⟩)⟩
      · obtain ⟨a, ha, rfl⟩ := h.mem_seen.mp ho
        obtain ⟨b, hb, rfl⟩ := childOf_some a.2 hc hbook
        have hmet : t.Met Prod.fst b :=
          hsettled a ha List.not_mem_nil b (List.mem_filterMap.mpr ⟨e, he, hb⟩)
        exact ⟨b.1, hc, h.directory_accounted hmet hhead⟩
    · obtain ⟨s, hs, ⟨phys, hphys⟩ | hhead⟩ := hsnapshots o ho e he
      · exact ⟨s, hs, Or.inl (h.snapshot_listed ho he hs hphys)⟩
      · obtain ⟨hne, o', ho', dir, hdir, rfl⟩ := hhead
        rcases h.head_accounted ho' hdir hne with hlisted | herror
        · obtain ⟨phys, hphys⟩ := h.listed_read hlisted
          exact ⟨_, hs, Or.inl (h.snapshot_listed ho he hs hphys)⟩
        · exact ⟨_, hs, Or.inr herror⟩

end Stands

/-- The walk of a pool ends, and accounts for everything it meets exactly where that is
regular. -/
theorem walk_accounts_iff (mos : DnodeArray Id) (poolName : String) :
    (walk mos poolName).run =
        (rootDataset mos).run.map (fun root => (walkFrom mos poolName root).run.tree) ∧
      ∀ root, Accounts mos (walkFrom mos poolName root).run ↔
        Regular mos (trip mos poolName root) := by
  constructor
  · rw [walk]
    simp only [Id.run_bind]
    cases (rootDataset mos).run <;> rfl
  · intro root
    exact (walkFrom_stands mos poolName root).accounts_iff (trip_settled mos poolName root)

end Walked

/-! ## A snapshot that is passed over -/

/-- Bytes with zeros after them, up to so many. -/
def padded (n : Nat) (bytes : List UInt8) : List UInt8 :=
  bytes ++ List.replicate (n - bytes.length) 0

def words (l : List Nat) : List UInt8 :=
  l.flatMap (fun n => Endian.little.bytes (UInt64.ofNat n))

/-- A pointer to one sector and those after it. -/
def pointerBytes (sector : Nat) : List UInt8 :=
  padded bpSize (words [1, sector, 0, 0, 0, 0, 2 ^ 63])

/-- A dnode of one block of so many sectors. -/
def dnodeBytes (objectType sectors sector : Nat) (bonus : List UInt8) : List UInt8 :=
  padded dnodeSize
    (padded dnodeCoreSize
        [UInt8.ofNat objectType, 0, 1, 1, 0, 0, 0, 0, UInt8.ofNat sectors, 0,
          UInt8.ofNat bonus.length, UInt8.ofNat (bonus.length / 256)] ++
      pointerBytes sector ++ bonus)

def dirBytes (head children : Nat) : List UInt8 :=
  dnodeBytes 12 1 0 (padded dslDirMinLen (words [0, head, 0, 0, children]))

def datasetBytes (dir snapnames guid : Nat) : List UInt8 :=
  dnodeBytes 16 1 0
    (padded dslDatasetMinLen (words [dir, 0, 0, 0, snapnames, 0, 0, 0, 0, 0, 0, 0, 0, 0, guid]))

def zapBytes (sector : Nat) : List UInt8 := dnodeBytes 1 1 sector []

def microzapBytes (entries : List (String × Nat)) : List UInt8 :=
  padded 512 (padded Zap.mzapEntSize (words [Zap.zbtMicro]) ++
    entries.flatMap (fun e =>
      padded Zap.mzapEntSize (words [e.2] ++ List.replicate 6 0 ++ e.1.toUTF8.data.toList)))

/-- A reader of the blocks that begin at these sectors. -/
def sectorReader (blocks : List (Nat × List UInt8)) : PoolReader Id where
  readBlock bp :=
    match blocks.lookup (bp.dva0.offset / 512) with
    | some data => .ok { data, verify := .ok, attempts := [] }
    | none => .error .allCopiesBad
  verify _ _ := .ok
  salvageDva _ _ := .error .noMember

/-- An object set whose dnodes are eight sectors from the first on. -/
def mosOf (blocks : List (Nat × List UInt8)) : DnodeArray Id where
  meta_ :=
    { reader := sectorReader blocks
      dnode :=
        { objectType := 10, indblkshift := 0, nlevels := 1, nblkptr := 1, bonusType := 0
          checksum := 0, compress := 0, flags := 0, datablkszsec := 8, bonuslen := 0
          extraSlots := 0, maxblkid := 0, used := 0
          blkptr := (BlkPtr.parse (pointerBytes 1) .little).toOption.toList, bonus := []
          spill := none }
      endian := .little }

/-- A pool whose one snapshot has a dnode that is free. -/
def lostSnapshot : DnodeArray Id :=
  mosOf
    [(1, padded 4096 (padded dnodeSize [] ++ zapBytes 20 ++ dirBytes 3 0 ++ datasetBytes 2 4 7 ++
        zapBytes 21)),
      (20, microzapBytes [("root_dataset", 2)]),
      (21, microzapBytes [("daily", 5)])]

/-- The snapshot is neither listed nor complained of. -/
theorem snapshot_lost : (rootDataset lostSnapshot).run = .ok 2 ∧
    ¬ Accounts lostSnapshot (walkFrom lostSnapshot "tank" 2).run := by
  refine ⟨by decide +kernel, fun hacc => ?_⟩
  have hwalk : let w := (walkFrom lostSnapshot "tank" 2).run
      w.seen = [2] ∧ w.tree.datasets.map Dataset.object = [3] ∧ w.tree.errors = [] := by
    decide +kernel
  obtain ⟨hseen, hdatasets, herrors⟩ := hwalk
  have hentry : { name := "daily", raw := [100, 97, 105, 108, 121], value := .u64 5, cd := 0 } ∈
      snapEntries lostSnapshot 2 := by decide +kernel
  obtain ⟨s, hs, ⟨d, hd, hobj, -⟩ | ⟨name, e, herror⟩⟩ := hacc.snapshots 2 (by rw [hseen]; exact List.mem_singleton.mpr rfl) _ hentry
  · cases hs
    have hmem := List.mem_map_of_mem (f := Dataset.object) hd
    rw [hdatasets, hobj] at hmem
    simp at hmem
  · rw [herrors] at herror
    cases herror

end Dsl
end ZvolRescue
