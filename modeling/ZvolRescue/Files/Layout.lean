import ZvolRescue.Files.Manifest

/-!
# What an extraction lays out

Where the system refuses nothing, an entry makes the directories that it needs and puts its bytes
at its path (`extractEntry_adds`, `extractEntry_puts`).  A file makes the directory that it lies
in, a link does not: it is put only where an entry before it has made that directory (`Ready`).
-/

namespace ZvolRescue
namespace Files

open Lib Dmu Zpl

/-- The entry is extracted with this directory. -/
def Makes (e : Entry) (q : Path) : Prop :=
  q ≠ [] ∧ ∃ z, e.znode = some z ∧
    (z.fileType = .dir ∧ q <+: components e.rawPath ∨
      z.fileType = .regular ∧ q <+: (components e.rawPath).dropLast)

/-- The directory that a path lies in is the output directory or has been made. -/
def Ready (before : List Entry) (q : Path) : Prop :=
  q.dropLast = [] ∨ ∃ e ∈ before, Makes e q.dropLast

/-- The bytes that are written for an object. -/
def bytesOf (s : Setting) (fs : Filesystem) (object : Nat) (z : Znode) : Option (List UInt8) :=
  match z.fileType with
  | .regular => (fs.object object).toOption.map (fun obj => (copied obj z.size s.strict).1)
  | .symlink => (fs.symlinkTarget object z).toOption
  | _ => none

/-- The entry is a regular file or a link. -/
def IsFile (z : Znode) : Prop := z.fileType = .regular ∨ z.fileType = .symlink

/-- What is recorded of an entry: its size, digest, target and unreadable blocks. -/
structure Details where
  size : Nat
  sha256 : Option String
  target : Option String
  errors : Nat
  deriving DecidableEq, Repr

def Extracted.details (r : Extracted) : Details :=
  { size := r.size, sha256 := r.sha256, target := r.target, errors := r.errors }

/-- What is recorded of a file, wherever it is put. -/
def detailsOf (s : Setting) (fs : Filesystem) (object : Nat) (z : Znode) : Details :=
  let plain : Details := { size := z.size, sha256 := none, target := none, errors := 0 }
  match z.fileType with
  | .regular =>
    match fs.object object with
    | .error _ => plain
    | .ok obj =>
      match (copied obj z.size s.strict).2 with
      | .error _ => plain
      | .ok errors =>
        { plain with sha256 := some (s.sha256 (copied obj z.size s.strict).1), errors }
  | .symlink =>
    match fs.symlinkTarget object z with
    | .error _ => plain
    | .ok target => { plain with target := some (Ondisk.fromUtf8Lossy target) }
  | _ => plain

/-- Entries whose paths are good, and none of whose files lies where a directory is made. -/
structure Planned (es : List Entry) : Prop where
  safe : ∀ e ∈ es, ∀ z, e.znode = some z → safeJoin e.rawPath = some (components e.rawPath)
  apart : ∀ e ∈ es, ∀ e' ∈ es, ∀ z, e.znode = some z → z.fileType ≠ .dir →
    ¬ Makes e' (components e.rawPath)

/-- What entries have made: these directories, and files at their paths. -/
structure Laid (done : List Entry) (d : Disk (List UInt8)) : Prop where
  dirs : ∀ q, d.node q = some .dir ↔ ∃ e ∈ done, Makes e q
  files : ∀ q i, d.node q = some (.file i) →
    ∃ e ∈ done, ∃ z, e.znode = some z ∧ z.fileType ≠ .dir ∧ components e.rawPath = q

/-- Nothing is there that entries have not made. -/
structure Within (done : List Entry) (d : Disk (List UInt8)) : Prop where
  dirs : ∀ q, d.node q = some .dir → ∃ e ∈ done, Makes e q
  files : ∀ q i, d.node q = some (.file i) →
    ∃ e ∈ done, ∃ z, e.znode = some z ∧ z.fileType ≠ .dir ∧ components e.rawPath = q

/-- What one entry adds. -/
structure Adds (e : Entry) (d d' : Disk (List UInt8)) : Prop where
  dirs : ∀ q, d'.node q = some .dir ↔ d.node q = some .dir ∨ Makes e q
  files : ∀ q i, d'.node q = some (.file i) → (∃ j, d.node q = some (.file j)) ∨
    ∃ z, e.znode = some z ∧ z.fileType ≠ .dir ∧ components e.rawPath = q

section Layout

variable {s : Setting} {fs : Filesystem} {es done : List Entry} {e : Entry}
  {d d' : Disk (List UInt8)}

theorem Laid.start : Laid [] (Disk.existing (fun _ => none)) where
  dirs q := by
    constructor
    · intro h
      cases h
    · intro h
      obtain ⟨e, he, -⟩ := h
      cases he
  files q i h := by cases h

theorem Within.later (h : Within done d) (e : Entry) : Within (done ++ [e]) d where
  dirs q hq := by
    obtain ⟨e', he', hmakes⟩ := h.dirs q hq
    exact ⟨e', List.mem_append_left _ he', hmakes⟩
  files q i hq := by
    obtain ⟨e', he', hrest⟩ := h.files q i hq
    exact ⟨e', List.mem_append_left _ he', hrest⟩

theorem Laid.add (h : Laid done d) (ha : Adds e d d') : Laid (done ++ [e]) d' where
  dirs q := by
    rw [ha.dirs, h.dirs]
    constructor
    · rintro (⟨e', he', hmakes⟩ | hmakes)
      · exact ⟨e', List.mem_append_left _ he', hmakes⟩
      · exact ⟨e, List.mem_append_right _ (List.mem_singleton_self e), hmakes⟩
    · rintro ⟨e', he', hmakes⟩
      rcases List.mem_append.mp he' with he' | he'
      · exact Or.inl ⟨e', he', hmakes⟩
      · rw [List.mem_singleton.mp he'] at hmakes
        exact Or.inr hmakes
  files q i hq := by
    rcases ha.files q i hq with ⟨j, hj⟩ | ⟨z, hrest⟩
    · obtain ⟨e', he', hrest⟩ := h.files q j hj
      exact ⟨e', List.mem_append_left _ he', hrest⟩
    · exact ⟨e, List.mem_append_right _ (List.mem_singleton_self e), z, hrest⟩

theorem Laid.within (h : Laid done d) : Within done d := ⟨fun q => (h.dirs q).mp, h.files⟩

/-- Where an entry makes a directory there is no file. -/
theorem Within.no_file (h : Within done d) (hplan : Planned es) (hdone : ∀ e ∈ done, e ∈ es)
    (he : e ∈ es) {q : Path} (hmakes : Makes e q) (i : Path) : d.node q ≠ some (.file i) := by
  intro hq
  obtain ⟨e', he', z, hz, hfile, rfl⟩ := h.files q i hq
  exact hplan.apart e' (hdone e' he') e he z hz hfile hmakes

/-- A file is not put where there is a directory. -/
theorem Within.no_dir (h : Within done d) (hplan : Planned es) (hdone : ∀ e ∈ done, e ∈ es)
    (he : e ∈ es) {z : Znode} (hz : e.znode = some z) (hfile : z.fileType ≠ .dir) :
    d.node (components e.rawPath) ≠ some .dir := by
  intro hq
  obtain ⟨e', he', hmakes⟩ := h.dirs _ hq
  exact hplan.apart e he e' (hdone e' he') z hz hfile hmakes

theorem Adds.nothing (h : ∀ q, ¬ Makes e q) : Adds e d d where
  dirs q := ⟨Or.inl, fun hq => hq.resolve_right (h q)⟩
  files _ i hq := Or.inl ⟨i, hq⟩

theorem Adds.node_eq (h : Adds e d d') {d'' : Disk (List UInt8)} (hnode : d''.node = d'.node) :
    Adds e d d'' where
  dirs := by rw [hnode]; exact h.dirs
  files := by rw [hnode]; exact h.files

/-- A file is put at its path. -/
theorem Adds.wrote (h : Adds e d d') {d'' : Disk (List UInt8)} {i : Path} {bytes : List UInt8}
    (hw : d'.Wrote d'' (components e.rawPath) i bytes) {z : Znode} (hz : e.znode = some z)
    (hfile : z.fileType ≠ .dir) (hdir : d'.node (components e.rawPath) ≠ some .dir) :
    Adds e d d'' where
  dirs q := by
    rw [← h.dirs, hw.node]
    by_cases hq : q = components e.rawPath
    · rw [if_pos hq, hq]
      exact ⟨fun hi => (by cases hi), fun hi => absurd hi hdir⟩
    · rw [if_neg hq]
  files q j hq := by
    rw [hw.node] at hq
    by_cases hqe : q = components e.rawPath
    · exact Or.inr ⟨z, hz, hfile, hqe.symm⟩
    · rw [if_neg hqe] at hq
      exact h.files q j hq

theorem makes_dir {z : Znode} (hz : e.znode = some z) (htype : z.fileType = .dir) {q : Path} :
    Makes e q ↔ q ≠ [] ∧ q <+: components e.rawPath := by
  rw [Makes, hz]
  simp [htype]

theorem makes_regular {z : Znode} (hz : e.znode = some z) (htype : z.fileType = .regular)
    {q : Path} : Makes e q ↔ q ≠ [] ∧ q <+: (components e.rawPath).dropLast := by
  rw [Makes, hz]
  simp [htype]

theorem not_makes {z : Znode} (hz : e.znode = some z) (hdir : z.fileType ≠ .dir)
    (hregular : z.fileType ≠ .regular) (q : Path) : ¬ Makes e q := by
  rw [Makes, hz]
  simp [hdir, hregular]

theorem not_makes_none (hz : e.znode = none) (q : Path) : ¬ Makes e q := by
  rw [Makes, hz]
  simp

/-- The directories of an entry are made. -/
theorem Laid.mkdirAll (h : Laid done d) (hplan : Planned es) (hdone : ∀ e ∈ done, e ∈ es)
    (he : e ∈ es) {refuses : Refusals (List UInt8)} (hfree : ∀ d op, refuses d op = none)
    {p : Path} (hp : ∀ q, Makes e q ↔ q ≠ [] ∧ q <+: p) :
    (d.mkdirAll refuses p).2 = none ∧ Adds e d (d.mkdirAll refuses p).1 := by
  have hfile : ∀ q, q ≠ [] → q <+: p → ∀ i, d.node q ≠ some (.file i) :=
    fun q hne hq i => h.within.no_file hplan hdone he ((hp q).mpr ⟨hne, hq⟩) i
  obtain ⟨hnone, hnode⟩ := Disk.mkdirAll_free hfree hfile
  refine ⟨hnone, ⟨fun q => ?_, fun q i hq => ?_⟩⟩
  · rw [hp q]
    by_cases hq : q ≠ [] ∧ q <+: p
    · exact ⟨fun _ => Or.inr hq, fun _ => (hnode q).1 hq⟩
    · rw [(hnode q).2 hq]
      exact ⟨Or.inl, fun hor => hor.resolve_right hq⟩
  · exact Or.inl ⟨i, ((d.mkdirAll_sameFiles refuses p).node q i).mp hq⟩

theorem preserveMode_node (z : Znode) (dest : Path) (record : Extracted)
    (disk : Disk (List UInt8)) : (preserveMode s z dest record disk).node = disk.node := by
  rw [preserveMode]
  split
  · exact Disk.setMode_node _ _ _
  · rfl

theorem preserveMode_contentAt (z : Znode) (dest : Path) (record : Extracted)
    (disk : Disk (List UInt8)) (q : Path) :
    (preserveMode s z dest record disk).contentAt q = disk.contentAt q :=
  (preserveMode_sameFiles z dest record disk).contentAt q

/-- A directory above the path of an entry holds no file. -/
theorem Within.no_file_above (h : Within done d) (hplan : Planned es) (hdone : ∀ e ∈ done, e ∈ es)
    {q : Path} (hdir : ∃ r, d.node r = some .dir ∧ q <+: r) (hne : q ≠ []) (i : Path) :
    d.node q ≠ some (.file i) := by
  obtain ⟨r, hr, hq⟩ := hdir
  obtain ⟨e, he, hmakes⟩ := h.dirs r hr
  refine h.no_file hplan hdone (hdone e he) ?_ i
  obtain ⟨-, z, hz, hpre⟩ := hmakes
  refine ⟨hne, z, hz, ?_⟩
  rcases hpre with ⟨htype, hpre⟩ | ⟨htype, hpre⟩
  · exact Or.inl ⟨htype, hq.trans hpre⟩
  · exact Or.inr ⟨htype, hq.trans hpre⟩

/-- Nothing is in the way of a file whose directory is there. -/
theorem Within.not_blocked (h : Within done d) (hplan : Planned es) (hdone : ∀ e ∈ done, e ∈ es)
    {p : Path} (hdir : p.dropLast = [] ∨ d.node p.dropLast = some .dir) : d.blocked p = none := by
  refine Disk.blocked_eq_none (fun q hne hq i => ?_) hdir
  rcases hdir with hroot | hdir
  · rw [hroot] at hq
    exact absurd (List.prefix_nil.mp hq) hne
  · exact h.no_file_above hplan hdone ⟨_, hdir, hq⟩ hne i

/-! ## One entry -/

/-- The bytes of an entry are put at its path, and no other content changes. -/
structure Puts (s : Setting) (fs : Filesystem) (before : List Entry) (e : Entry)
    (d d' : Disk (List UInt8)) : Prop where
  put : ∀ z bytes, e.znode = some z → bytesOf s fs e.object z = some bytes →
    (z.fileType = .symlink → Ready before (components e.rawPath)) →
      d'.contentAt (components e.rawPath) = some bytes
  unput : (∀ z, e.znode = some z → bytesOf s fs e.object z = none ∨
      z.fileType = .symlink ∧ ¬ Ready before (components e.rawPath)) →
    d'.contentAt (components e.rawPath) = d.contentAt (components e.rawPath)
  kept : ∀ q, q ≠ components e.rawPath → d'.contentAt q = d.contentAt q

/-- Every file is known by its only name. -/
def Own (d : Disk (List UInt8)) : Prop := ∀ q i, d.node q = some (.file i) → i = q

/-- What the extraction of an entry does where its object was not written before. -/
structure Extracts (s : Setting) (fs : Filesystem) (before : List Entry) (e : Entry)
    (t t' : State) : Prop where
  adds : Adds e t.disk t'.disk
  puts : Puts s fs before e t.disk t'.disk
  own : Own t'.disk
  record : ∃ r, t'.files = t.files ++ [r] ∧ r.object = e.object ∧
    ∀ z, e.znode = some z → IsFile z → r.details = detailsOf s fs e.object z
  written : ∀ object w, t'.writtenObjects.lookup object = some w →
    t.writtenObjects.lookup object = some w ∨ object = e.object ∧
      ∃ z, e.znode = some z ∧ z.fileType = .regular

theorem Puts.nothing (hcontent : ∀ q, d'.contentAt q = d.contentAt q)
    (hnone : ∀ z, e.znode = some z → bytesOf s fs e.object z = none ∨
      z.fileType = .symlink ∧ ¬ Ready done (components e.rawPath)) : Puts s fs done e d d' where
  put z bytes hz hbytes hready := by
    rcases hnone z hz with hnone | ⟨hlink, hunready⟩
    · rw [hbytes] at hnone
      cases hnone
    · exact absurd (hready hlink) hunready
  unput _ := hcontent _
  kept q _ := hcontent q

theorem Puts.content_eq (h : Puts s fs done e d d') {d'' : Disk (List UInt8)}
    (hcontent : ∀ q, d''.contentAt q = d'.contentAt q) : Puts s fs done e d d'' where
  put z bytes hz hbytes hready := (hcontent _).trans (h.put z bytes hz hbytes hready)
  unput hnone := (hcontent _).trans (h.unput hnone)
  kept q hq := (hcontent q).trans (h.kept q hq)

theorem Puts.wrote (hsame : ∀ q, d.contentAt q = d'.contentAt q) {i : Path}
    {d'' : Disk (List UInt8)} (hown' : Own d') {bytes : List UInt8}
    (hw : d'.Wrote d'' (components e.rawPath) i bytes) {z : Znode} (hz : e.znode = some z)
    (hbytes : bytesOf s fs e.object z = some bytes)
    (hready : z.fileType = .symlink → Ready done (components e.rawPath)) :
    Puts s fs done e d d'' := by
  have hi : i = components e.rawPath := by
    rcases hw.named with hfile | ⟨-, hi⟩
    · exact hown' _ _ hfile
    · exact hi
  rw [hi] at hw
  have hcontent := hw.contentAt (fun q hq => (hown' q _ hq).symm)
  refine ⟨fun z' bytes' hz' hbytes' _ => ?_, fun hnone => ?_, fun q hq => ?_⟩
  · rw [hz] at hz'
    cases hz'
    rw [hbytes] at hbytes'
    rw [hcontent, if_pos rfl, hbytes']
  · rcases hnone z hz with hnone | ⟨hlink, hunready⟩
    · rw [hbytes] at hnone
      cases hnone
    · exact absurd (hready hlink) hunready
  · rw [hcontent, if_neg hq, hsame]

theorem Own.node_eq (h : Own d) (hnode : d'.node = d.node) : Own d' := by
  intro q i hq
  rw [hnode] at hq
  exact h q i hq

theorem Own.sameFiles (h : Own d) (hsame : d.SameFiles d') : Own d' :=
  fun q i hq => h q i ((hsame.node q i).mp hq)

theorem Own.wrote (h : Own d) {p i : Path} {bytes : List UInt8} (hw : d.Wrote d' p i bytes) :
    Own d' := by
  intro q j hq
  rw [hw.node] at hq
  by_cases hqp : q = p
  · rw [if_pos hqp] at hq
    cases hq
    rcases hw.named with hfile | ⟨-, hi⟩
    · rw [h p i hfile, hqp]
    · rw [hi, hqp]
  · rw [if_neg hqp] at hq
    exact h q j hq

end Layout

section Entries

variable {s : Setting} {fs : Filesystem} {es done : List Entry} {e : Entry} {t : State}
  {z : Znode} (hfree : ∀ time d op, s.refuses time d op = none) (hplan : Planned es)
  (hdone : ∀ e ∈ done, e ∈ es) (he : e ∈ es) (h : Laid done t.disk) (hz : e.znode = some z)

include hfree hplan hdone he h hz

theorem extractDir_extracts (hown : Own t.disk) (htype : z.fileType = .dir) :
    Extracts s fs done e t (extractDir s z (components e.rawPath) (recordOf fs e z) t) := by
  obtain ⟨-, hadds⟩ := h.mkdirAll hplan hdone he (hfree t.files.length)
    (fun q => makes_dir hz htype)
  have hown' := hown.sameFiles (t.disk.mkdirAll_sameFiles (s.refuses t.files.length)
    (components e.rawPath))
  refine ⟨hadds.node_eq (preserveMode_node _ _ _ _), Puts.nothing (fun q => ?_) (fun z' hz' => ?_),
    hown'.node_eq (preserveMode_node _ _ _ _), ⟨_, rfl, rfl, fun z' hz' hfile => ?_⟩, fun object w hw => Or.inl hw⟩
  · rw [extractDir]
    simp only []
    rw [preserveMode_contentAt]
    exact (t.disk.mkdirAll_sameFiles _ _).contentAt q
  · rw [hz] at hz'
    cases hz'
    left
    rw [bytesOf, htype]
  · rw [hz] at hz'
    cases hz'
    rcases hfile with hfile | hfile
    · rw [htype] at hfile
      cases hfile
    · rw [htype] at hfile
      cases hfile

theorem extractSymlink_extracts (hown : Own t.disk) (htype : z.fileType = .symlink) :
    Extracts s fs done e t (extractSymlink s fs e z (components e.rawPath) (recordOf fs e z) t) := by
  have hmakes : ∀ q, ¬ Makes e q := not_makes hz (by simp [htype]) (by simp [htype])
  rw [extractSymlink]
  cases htarget : fs.symlinkTarget e.object z with
  | error err =>
    refine ⟨Adds.nothing hmakes, Puts.nothing (fun q => rfl) (fun z' hz' => ?_), hown,
      ⟨_, rfl, rfl, fun z' hz' _ => ?_⟩, fun object w hw => Or.inl hw⟩
    · rw [hz] at hz'
      cases hz'
      left
      simp only [bytesOf, htype, htarget]
      rfl
    · rw [hz] at hz'
      cases hz'
      simp only [detailsOf, htype, htarget]
      rfl
  | ok target =>
    have hbytes : bytesOf s fs e.object z = some target := by
      simp only [bytesOf, htype, htarget]
      rfl
    have hdetails : ∀ error, Extracted.details { recordOf fs e z with
        target := some (Ondisk.fromUtf8Lossy target), error } = detailsOf s fs e.object z := by
      intro error
      simp only [detailsOf, htype, htarget]
      rfl
    by_cases hready : Ready done (components e.rawPath)
    · have hdir : (components e.rawPath).dropLast = [] ∨
          t.disk.node (components e.rawPath).dropLast = some .dir :=
        hready.imp_right (fun hmade => (h.dirs _).mpr hmade)
      have hno := h.within.no_dir hplan hdone he hz (by simp [htype])
      obtain ⟨i, opened, hcreate⟩ := Disk.create_free (hfree t.files.length)
        (h.within.not_blocked hplan hdone hdir) hno
      have hw := Disk.create_wrote hcreate target
      have hwrite : write (s.refuses t.files.length) (components e.rawPath) target t.disk =
          (opened.store i target, none) := by
        rw [write, hcreate]
      refine ⟨?_, ?_, ?_, ⟨_, rfl, rfl, fun z' hz' _ => ?_⟩, fun object w hw => Or.inl hw⟩
      · refine Adds.node_eq ((Adds.nothing hmakes).wrote hw hz (by simp [htype]) hno) ?_
        simp only [hwrite]
        exact preserveMode_node _ _ _ _
      · have hputs : Puts s fs done e t.disk (opened.store i target) :=
          Puts.wrote (fun q => rfl) hown hw hz hbytes (fun _ => hready)
        simp only [hwrite]
        exact hputs.content_eq (preserveMode_contentAt _ _ _ _)
      · simp only [hwrite]
        exact (hown.wrote hw).node_eq (preserveMode_node _ _ _ _)
      · rw [hz] at hz'
        cases hz'
        exact hdetails _
    · have hroot : (components e.rawPath).dropLast ≠ [] := fun heq => hready (Or.inl heq)
      have hdir : t.disk.node (components e.rawPath).dropLast ≠ some .dir :=
        fun hd => hready (Or.inr ((h.dirs _).mp hd))
      obtain ⟨err, hblocked⟩ := Disk.blocked_of_missing hroot hdir
      have hwrite : write (s.refuses t.files.length) (components e.rawPath) target t.disk =
          (t.disk, some err.text) := by
        rw [write, Disk.create, hblocked]
      refine ⟨?_, Puts.nothing (fun q => ?_) (fun z' hz' => ?_), ?_,
        ⟨_, rfl, rfl, fun z' hz' _ => ?_⟩, fun object w hw => Or.inl hw⟩
      · refine (Adds.nothing hmakes).node_eq ?_
        simp only [hwrite]
        exact preserveMode_node _ _ _ _
      · simp only [hwrite]
        exact preserveMode_contentAt _ _ _ _ q
      · rw [hz] at hz'
        cases hz'
        exact Or.inr ⟨htype, hready⟩
      · simp only [hwrite]
        exact hown.node_eq (preserveMode_node _ _ _ _)
      · rw [hz] at hz'
        cases hz'
        exact hdetails _

omit hz in
/-- The directory of a file is made before the file. -/
theorem regular_parent (hz : e.znode = some z) (htype : z.fileType = .regular) :
    ∃ disk, disk = (if (components e.rawPath).dropLast = [] then t.disk
        else (t.disk.mkdirAll (s.refuses t.files.length) (components e.rawPath).dropLast).1) ∧
      t.disk.SameFiles disk ∧ Adds e t.disk disk ∧ disk.blocked (components e.rawPath) = none ∧
      disk.node (components e.rawPath) ≠ some .dir := by
  obtain ⟨-, hmade⟩ := h.mkdirAll hplan hdone he (hfree t.files.length)
    (fun q => makes_regular hz htype)
  have hdone' : ∀ e' ∈ done ++ [e], e' ∈ es := by
    intro e' he'
    rcases List.mem_append.mp he' with he' | he'
    · exact hdone e' he'
    · rw [List.mem_singleton.mp he']
      exact he
  refine ⟨_, rfl, ?_⟩
  by_cases hroot : (components e.rawPath).dropLast = []
  · rw [if_pos hroot]
    have hmakes : ∀ q, ¬ Makes e q := by
      intro q hq
      rw [makes_regular hz htype, hroot] at hq
      exact hq.1 (List.prefix_nil.mp hq.2)
    exact ⟨Disk.SameFiles.refl _, Adds.nothing hmakes,
      h.within.not_blocked hplan hdone (Or.inl hroot),
      h.within.no_dir hplan hdone he hz (by simp [htype])⟩
  · rw [if_neg hroot]
    have hlaid := h.add hmade
    refine ⟨t.disk.mkdirAll_sameFiles _ _, hmade, hlaid.within.not_blocked hplan hdone' (Or.inr ?_),
      hlaid.within.no_dir hplan hdone' he hz (by simp [htype])⟩
    exact (hmade.dirs _).mpr (Or.inr ((makes_regular hz htype).mpr ⟨hroot, List.prefix_refl _⟩))

theorem extractRegular_extracts (hown : Own t.disk) (htype : z.fileType = .regular)
    (hnew : t.writtenObjects.lookup e.object = none) :
    Extracts s fs done e t (extractRegular s fs e z (components e.rawPath) (recordOf fs e z) t) := by
  obtain ⟨disk, hdisk, hsame, hadds, hblocked, hno⟩ :=
    regular_parent hfree hplan hdone he h hz htype
  rw [extractRegular, ← hdisk, hnew]
  simp only []
  rw [copyRegular]
  cases hobj : fs.object e.object with
  | error err =>
    have hrefused : ∃ why, copyFile s fs t.files.length e.object z.size (components e.rawPath)
        disk = (disk, .error why) := copyFile_refused z.size (Or.inl ⟨err, hobj⟩)
    obtain ⟨why, hwhy⟩ := hrefused
    rw [hwhy]
    refine ⟨hadds, Puts.nothing (fun q => hsame.contentAt q) (fun z' hz' => ?_),
      hown.sameFiles hsame, ⟨_, rfl, rfl, fun z' hz' _ => ?_⟩, fun object w hw => Or.inl hw⟩
    · rw [hz] at hz'
      cases hz'
      left
      simp only [bytesOf, htype, hobj]
      rfl
    · rw [hz] at hz'
      cases hz'
      simp only [detailsOf, htype, hobj]
      rfl
  | ok obj =>
    have hbytes : bytesOf s fs e.object z = some (copied obj z.size s.strict).1 := by
      simp only [bytesOf, htype, hobj]
      rfl
    obtain ⟨i, opened, hcreate⟩ := Disk.create_free (hfree t.files.length) hblocked hno
    have hw := Disk.create_wrote hcreate (copied obj z.size s.strict).1
    have hadds' : Adds e t.disk (opened.store i (copied obj z.size s.strict).1) :=
      hadds.wrote hw hz (by simp [htype]) hno
    have hputs : Puts s fs done e t.disk (opened.store i (copied obj z.size s.strict).1) :=
      Puts.wrote (fun q => (hsame.contentAt q).symm) (hown.sameFiles hsame) hw hz hbytes
        (fun hlink => by rw [htype] at hlink; cases hlink)
    have hown' := (hown.sameFiles hsame).wrote hw
    rw [copyFile_opened z.size hobj hcreate]
    cases hcopied : (copied obj z.size s.strict).2 with
    | error err =>
      refine ⟨hadds', hputs, hown', ⟨_, rfl, rfl, fun z' hz' _ => ?_⟩, fun object w hw => Or.inl hw⟩
      rw [hz] at hz'
      cases hz'
      simp only [detailsOf, htype, hobj, hcopied]
      rfl
    | ok errors =>
      refine ⟨hadds'.node_eq (preserveMode_node _ _ _ _), ?_,
        hown'.node_eq (preserveMode_node _ _ _ _), ⟨_, rfl, rfl, fun z' hz' _ => ?_⟩,
        fun object w hw => ?_⟩
      · exact hputs.content_eq (preserveMode_contentAt _ _ _ _)
      · rw [hz] at hz'
        cases hz'
        simp only [detailsOf, htype, hobj, hcopied]
        rfl
      · simp only [Except.map] at hw
        split at hw
        · rw [List.lookup_cons] at hw
          by_cases hobject : object = e.object
          · exact Or.inr ⟨hobject, z, hz, htype⟩
          · rw [beq_eq_false_iff_ne.mpr hobject] at hw
            exact Or.inl hw
        · exact Or.inl hw

omit hz in
theorem extractEntry_extracts (hown : Own t.disk)
    (hnew : ∀ z, e.znode = some z → z.fileType = .regular →
      t.writtenObjects.lookup e.object = none) :
    Extracts s fs done e t (extractEntry s fs t e) := by
  rw [extractEntry]
  cases hz : e.znode with
  | none =>
    refine ⟨Adds.nothing (not_makes_none hz), Puts.nothing (fun q => rfl) (fun z hz' => ?_), hown,
      ⟨_, rfl, rfl, fun z hz' _ => ?_⟩, fun object w hw => Or.inl hw⟩
    · rw [hz] at hz'
      cases hz'
    · rw [hz] at hz'
      cases hz'
  | some z =>
    rw [hplan.safe e he z hz]
    simp only []
    cases htype : z.fileType with
    | dir => exact extractDir_extracts hfree hplan hdone he h hz hown htype
    | symlink => exact extractSymlink_extracts hfree hplan hdone he h hz hown htype
    | regular => exact extractRegular_extracts hfree hplan hdone he h hz hown htype (hnew z hz htype)
    | charDevice | blockDevice | fifo | socket | other =>
      refine ⟨Adds.nothing (not_makes hz (by simp [htype]) (by simp [htype])),
        Puts.nothing (fun q => rfl) (fun z' hz' => ?_), hown,
        ⟨_, rfl, rfl, fun z' hz' hfile => ?_⟩,
        fun object w hw => Or.inl hw⟩
      · rw [hz] at hz'
        cases hz'
        left
        rw [bytesOf, htype]
      · rw [hz] at hz'
        cases hz'
        rw [IsFile, htype] at hfile
        simp at hfile

end Entries

end Files
end ZvolRescue
