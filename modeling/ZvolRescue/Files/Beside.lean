import ZvolRescue.Files.Part
import ZvolRescue.Lib.Permissions

/-!
# A run beside one where nothing is refused

A run for a user who is refused what the permissions forbid goes on as one where nothing is
refused, as long as no entry makes anything in a directory that an entry before has closed
(`Beside`, `beside_from`).  What one entry does to the disk is said once (`extractEntry_ends`).
-/

namespace ZvolRescue
namespace Files

open Lib Zpl

/-- The same run where nothing is refused, and nothing preserved. -/
def Setting.free (s : Setting) : Setting := { s with preserve := [], refuses := fun _ => freely }

/-- The same run with the permissions preserved. -/
def Setting.withModes (s : Setting) : Setting := { s with preserve := "mode" :: s.preserve }

/-- States that differ in permissions alone. -/
structure State.Like (t t' : State) : Prop where
  disk : t.disk.Alike t'.disk
  files : t'.files = t.files
  directories : t'.directories = t.directories
  writtenObjects : t'.writtenObjects = t.writtenObjects

/-- The entry makes this path: one of its directories, or its own. -/
def Wants (s : Setting) (fs : Filesystem) (e : Entry) (q : Path) : Prop :=
  Makes e q ∨ q = components e.rawPath ∧
    ∃ z, e.znode = some z ∧ IsFile z ∧ bytesOf s fs e.object z ≠ none

/-- The entry is a directory in which its owner makes nothing. -/
def Shut (d : Entry) : Prop :=
  ∃ z, d.znode = some z ∧ z.fileType = .dir ∧ enterable z.permissions = false

/-- The entry is a file of which everything can be written. -/
def Complete (s : Setting) (fs : Filesystem) (e : Entry) (z : Znode) : Prop :=
  match z.fileType with
  | .regular => content s fs e.object z.size ≠ none
  | .symlink => (fs.symlinkTarget e.object z).toOption ≠ none
  | _ => False

/-- The permissions of what is there let the entry be written. -/
structure Permits (s : Setting) (fs : Filesystem) (d : Disk (List UInt8)) (e : Entry) : Prop where
  missing : ∀ q, Wants s fs e q → d.node q = none → d.closed q.dropLast = false
  there : e.znode ≠ none → ∀ i, d.node (components e.rawPath) = some (.file i) →
    d.readOnly i = false

/-! ## One entry, where nothing forbidden is done -/

section Like

variable {s : Setting} {fs : Filesystem} {t t' : State} {e : Entry} {z : Znode}
  (hrefuses : ∀ time, Unprivileged (s.refuses time)) (h : t.Like t')
  (hkempt : t'.disk.Kempt) (hp : Permits s fs t'.disk e) (hz : e.znode = some z)

theorem preserveMode_alike {d d' : Disk (List UInt8)} (h : d.Alike d') (z : Znode) (dest : Path)
    (record : Extracted) :
    (preserveMode s.free z dest record d).Alike (preserveMode s z dest record d') := by
  have hfree : preserveMode s.free z dest record d = d := by
    rw [preserveMode, if_neg (fun hmode => absurd hmode.2 List.not_mem_nil)]
  rw [hfree, preserveMode]
  split
  · exact h.setMode _ _
  · exact h

theorem write_alike {refuses : Refusals (List UInt8)} (hrefuses : Unprivileged refuses)
    {d d' : Disk (List UInt8)} (h : d.Alike d') {dest : Path}
    (hmissing : d'.node dest = none → d'.closed dest.dropLast = false)
    (hthere : ∀ i, d'.node dest = some (.file i) → d'.readOnly i = false) (bytes : List UInt8) :
    (write freely dest bytes d).1.Alike (write refuses dest bytes d').1 ∧
      (write refuses dest bytes d').2 = (write freely dest bytes d).2 := by
  rw [write, write]
  rcases Disk.create_alike hrefuses h hmissing hthere with
    ⟨err, heq, heq'⟩ | ⟨i, made, made', heq, heq', hmade⟩
  · rw [heq, heq']
    exact ⟨h, rfl⟩
  · rw [heq, heq']
    exact ⟨hmade.store i bytes, rfl⟩

theorem copyFile_alike (hrefuses : ∀ time, Unprivileged (s.refuses time)) (time object size : Nat)
    {d d' : Disk (List UInt8)} (h : d.Alike d') {dest : Path}
    (hmissing : (fs.object object).toOption ≠ none → d'.node dest = none →
      d'.closed dest.dropLast = false)
    (hthere : ∀ i, d'.node dest = some (.file i) → d'.readOnly i = false) :
    (copyFile s.free fs time object size dest d).1.Alike
        (copyFile s fs time object size dest d').1 ∧
      (copyFile s fs time object size dest d').2 = (copyFile s.free fs time object size dest d).2 := by
  have hfree : d.create (s.free.refuses time) dest = d.create freely dest := rfl
  rw [copyFile, copyFile, hfree]
  cases hobj : fs.object object with
  | error err => exact ⟨h, rfl⟩
  | ok obj =>
    rw [hobj] at hmissing
    simp only []
    rcases Disk.create_alike (hrefuses time) h (hmissing (Option.some_ne_none obj)) hthere with
      ⟨err, heq, heq'⟩ | ⟨i, made, made', heq, heq', hmade⟩
    · rw [heq, heq']
      exact ⟨h, rfl⟩
    · rw [heq, heq']
      exact ⟨hmade.store i _, rfl⟩

include hrefuses h hkempt hp hz

theorem extractDir_like (htype : z.fileType = .dir) :
    (extractDir s.free z (components e.rawPath) (recordOf fs e z) t).Like
      (extractDir s z (components e.rawPath) (recordOf fs e z) t') := by
  obtain ⟨hmade, herror⟩ := Disk.mkdirAll_alike (hrefuses t.files.length) h.disk hkempt
    (p := components e.rawPath)
    (fun q hne hq => hp.missing q (Or.inl ((makes_dir hz htype).mpr ⟨hne, hq⟩)))
  rw [extractDir, extractDir, h.files, herror]
  exact ⟨preserveMode_alike hmade _ _ _, rfl, by rw [h.directories], h.writtenObjects⟩

omit hkempt in
theorem extractSymlink_like (htype : z.fileType = .symlink) :
    (extractSymlink s.free fs e z (components e.rawPath) (recordOf fs e z) t).Like
      (extractSymlink s fs e z (components e.rawPath) (recordOf fs e z) t') := by
  rw [extractSymlink, extractSymlink]
  cases htarget : fs.symlinkTarget e.object z with
  | error err => exact ⟨h.disk, by rw [h.files], h.directories, h.writtenObjects⟩
  | ok target =>
    have hwants : Wants s fs e (components e.rawPath) := by
      refine Or.inr ⟨rfl, z, hz, Or.inr htype, ?_⟩
      simp [bytesOf, htype, htarget, Except.toOption]
    obtain ⟨hmade, herror⟩ := write_alike (hrefuses t.files.length) h.disk
      (hp.missing _ hwants) (hp.there (by simp [hz])) target
    have hfree : write (s.free.refuses t.files.length) = write freely := rfl
    simp only [h.files, hfree, herror]
    exact ⟨preserveMode_alike hmade _ _ _, rfl, h.directories, h.writtenObjects⟩

omit h hkempt hp hz in
theorem linkRegular_like {first : Written} {disk disk' : Disk (List UInt8)} {dest : Path}
    {record : Extracted} (h : t.Like t') (hdisk : disk.Alike disk')
    (hmissing : disk'.node dest = none → disk'.closed dest.dropLast = false) :
    (linkRegular s.free dest first record disk t).Like
      (linkRegular s dest first record disk' t') := by
  rw [linkRegular, linkRegular]
  cases safeJoin first.rawPath with
  | none => exact ⟨hdisk, by rw [h.files], h.directories, h.writtenObjects⟩
  | some source =>
    have hfree : disk.hardLink (s.free.refuses t.files.length) source dest =
        disk.hardLink freely source dest := rfl
    simp only []
    rw [h.files, hfree]
    have hboth := Disk.hardLink_alike (hrefuses t.files.length) hdisk source hmissing
    rcases hboth with ⟨err, heq, heq'⟩ | ⟨linked, linked', heq, heq', hlinked⟩
    · rw [heq, heq']
      exact ⟨hdisk, rfl, h.directories, h.writtenObjects⟩
    · rw [heq, heq']
      exact ⟨hlinked, rfl, h.directories, h.writtenObjects⟩

omit h hkempt hp hz in
theorem copyRegular_like {disk disk' : Disk (List UInt8)} {dest : Path} {record : Extracted}
    (h : t.Like t') (hdisk : disk.Alike disk')
    (hmissing : (fs.object e.object).toOption ≠ none → disk'.node dest = none →
      disk'.closed dest.dropLast = false)
    (hthere : ∀ i, disk'.node dest = some (.file i) → disk'.readOnly i = false) :
    (copyRegular s.free fs e z dest record disk t).Like
      (copyRegular s fs e z dest record disk' t') := by
  obtain ⟨hmade, hresult⟩ := copyFile_alike hrefuses t.files.length e.object z.size hdisk hmissing
    hthere
  rw [copyRegular, copyRegular, h.files, h.writtenObjects]
  cases hcopy : copyFile s.free fs t.files.length e.object z.size dest disk with
  | mk made result =>
    cases hcopy' : copyFile s fs t.files.length e.object z.size dest disk' with
    | mk made' result' =>
      rw [hcopy, hcopy'] at hmade hresult
      simp only at hmade hresult
      rw [hresult]
      cases result with
      | error err => exact ⟨hmade, rfl, h.directories, rfl⟩
      | ok done => exact ⟨preserveMode_alike hmade _ _ _, rfl, h.directories, rfl⟩

theorem extractRegular_like (htype : z.fileType = .regular)
    (hlinked : t.writtenObjects.lookup e.object ≠ none → bytesOf s fs e.object z ≠ none) :
    (extractRegular s.free fs e z (components e.rawPath) (recordOf fs e z) t).Like
      (extractRegular s fs e z (components e.rawPath) (recordOf fs e z) t') := by
  let dest := components e.rawPath
  have hparent : ∃ disk disk',
      disk = (if dest.dropLast = [] then t.disk
        else (t.disk.mkdirAll (s.free.refuses t.files.length) dest.dropLast).1) ∧
      disk' = (if dest.dropLast = [] then t'.disk
        else (t'.disk.mkdirAll (s.refuses t'.files.length) dest.dropLast).1) ∧
      disk.Alike disk' ∧ t'.disk.Grows disk' ∧ t'.disk.SameFiles disk' := by
    refine ⟨_, _, rfl, rfl, ?_⟩
    by_cases hroot : dest.dropLast = []
    · rw [if_pos hroot, if_pos hroot]
      exact ⟨h.disk, Disk.Grows.refl _, Disk.SameFiles.refl _⟩
    · rw [if_neg hroot, if_neg hroot]
      refine ⟨?_, t'.disk.mkdirAll_grows _ _, t'.disk.mkdirAll_sameFiles _ _⟩
      rw [h.files]
      exact (Disk.mkdirAll_alike (hrefuses t.files.length) h.disk hkempt
        (fun q hne hq => hp.missing q (Or.inl ((makes_regular hz htype).mpr ⟨hne, hq⟩)))).1
  obtain ⟨disk, disk', heq, heq', hdisk, hgrows, hsame⟩ := hparent
  have hmissing : bytesOf s fs e.object z ≠ none → disk'.node dest = none →
      disk'.closed dest.dropLast = false := by
    intro hbytes hnone
    rw [hgrows.closed_eq hkempt]
    exact hp.missing dest (Or.inr ⟨rfl, z, hz, Or.inl htype, hbytes⟩) (hgrows.missing hnone)
  rw [extractRegular, extractRegular, ← heq, ← heq', h.writtenObjects]
  cases hlookup : t.writtenObjects.lookup e.object with
  | some first =>
    refine linkRegular_like hrefuses h hdisk (hmissing (hlinked ?_))
    rw [hlookup]
    exact Option.some_ne_none _
  | none =>
    refine copyRegular_like hrefuses h hdisk (fun hobj => hmissing ?_) (fun i hi => ?_)
    · rw [bytesOf, htype]
      simpa using hobj
    · rw [Disk.readOnly, hgrows.mode]
      exact hp.there (by simp [hz]) i ((hsame.node _ _).mp hi)

omit hz in
/-- An entry that the permissions let be written is written as if nothing were refused. -/
theorem extractEntry_like
    (hlinked : ∀ z, e.znode = some z → z.fileType = .regular →
      t.writtenObjects.lookup e.object ≠ none → bytesOf s fs e.object z ≠ none) :
    (extractEntry s.free fs t e).Like (extractEntry s fs t' e) := by
  rw [extractEntry, extractEntry]
  cases hz : e.znode with
  | none => exact ⟨h.disk, by rw [h.files], h.directories, h.writtenObjects⟩
  | some z =>
    cases hdest : safeJoin e.rawPath with
    | none => exact ⟨h.disk, by rw [h.files], h.directories, h.writtenObjects⟩
    | some dest =>
      simp only []
      rw [← safeJoin_eq hdest]
      cases htype : z.fileType with
      | dir => exact extractDir_like hrefuses h hkempt hp hz htype
      | symlink => exact extractSymlink_like hrefuses h hp hz htype
      | regular =>
        exact extractRegular_like hrefuses h hkempt hp hz htype (hlinked z hz htype)
      | charDevice | blockDevice | fifo | socket | other =>
        exact ⟨h.disk, by rw [h.files], h.directories, h.writtenObjects⟩

end Like

/-! ## How an entry ends -/

/-- How an entry ends once its directories and its file are made: its permissions may be set, or
it is another name of a file. -/
inductive Ends (s : Setting) (fs : Filesystem) (t : State) (e : Entry) (d : Disk (List UInt8)) (r : Extracted) :
    Disk (List UInt8) → Prop
  | left (h : r.error = none → "mode" ∉ s.preserve) : Ends s fs t e d r d
  | set (z : Znode) (hz : e.znode = some z) (hmode : r.mode = octal z.permissions)
    (hdir : z.fileType = .dir → d.node (components e.rawPath) = some .dir)
    (hfile : z.fileType ≠ .dir → Complete s fs e z ∧
      ∃ i, d.node (components e.rawPath) = some (.file i)) (herror : r.error = none)
    (hpreserve : "mode" ∈ s.preserve) :
    Ends s fs t e d r (d.setMode (components e.rawPath) z.permissions)
  | linked (z : Znode) (first : Written) (source : Path) (linked : Disk (List UInt8))
    (hz : e.znode = some z) (htype : z.fileType = .regular) (hmode : r.mode = octal z.permissions)
    (hfirst : t.writtenObjects.lookup e.object = some first)
    (hsource : safeJoin first.rawPath = some source)
    (hlink : d.hardLink (s.refuses t.files.length) source (components e.rawPath) = .ok linked) :
    Ends s fs t e d r linked

section Ends

variable {s : Setting} {fs : Filesystem} {t : State} {e : Entry} {z : Znode}
  {P : Disk (List UInt8) → Prop}
  (hmkdir : ∀ d p, (∀ q, Makes e q ↔ q ≠ [] ∧ q <+: p) → P d →
    P (d.mkdirAll (s.refuses t.files.length) p).1)
  (hcreate : ∀ d i d' bytes z, e.znode = some z → z.fileType ≠ .dir → P d →
    d.create (s.refuses t.files.length) (components e.rawPath) = .ok (i, d') → P (d'.store i bytes))
  (hstart : P t.disk) (hz : e.znode = some z)

/-- The permissions of what was made are set, or stay as they were. -/
theorem ends_preserveMode {d : Disk (List UInt8)} {r : Extracted} (hz : e.znode = some z)
    (hmode : r.mode = octal z.permissions)
    (hdir : r.error = none → z.fileType = .dir → d.node (components e.rawPath) = some .dir)
    (hfile : r.error = none → z.fileType ≠ .dir → Complete s fs e z ∧
      ∃ i, d.node (components e.rawPath) = some (.file i)) :
    Ends s fs t e d r (preserveMode s z (components e.rawPath) r d) := by
  rw [preserveMode]
  by_cases hset : r.error = none ∧ "mode" ∈ s.preserve
  · rw [if_pos hset]
    exact .set z hz hmode (hdir hset.1) (hfile hset.1) hset.1 hset.2
  · rw [if_neg hset]
    exact .left (fun herror hmem => hset ⟨herror, hmem⟩)

theorem copyRegular_ends {d : Disk (List UInt8)} (hd : P d) (hz : e.znode = some z)
    (htype : z.fileType = .regular)
    (hcreate : ∀ d i d' bytes z, e.znode = some z → z.fileType ≠ .dir → P d →
      d.create (s.refuses t.files.length) (components e.rawPath) = .ok (i, d') →
        P (d'.store i bytes)) :
    ∃ d' r, P d' ∧
      (copyRegular s fs e z (components e.rawPath) (recordOf fs e z) d t).files = t.files ++ [r] ∧
      Ends s fs t e d' r (copyRegular s fs e z (components e.rawPath) (recordOf fs e z) d t).disk := by
  have hne : z.fileType ≠ .dir := by simp [htype]
  rw [copyRegular]
  cases hobj : fs.object e.object with
  | error err =>
    obtain ⟨why, hwhy⟩ := copyFile_refused z.size (Or.inl ⟨err, hobj⟩)
    rw [hwhy]
    exact ⟨d, _, hd, rfl, .left (fun herror => by cases herror)⟩
  | ok obj =>
    cases hmade : d.create (s.refuses t.files.length) (components e.rawPath) with
    | error err =>
      obtain ⟨why, hwhy⟩ := copyFile_refused z.size (Or.inr ⟨err, hmade⟩)
      rw [hwhy]
      exact ⟨d, _, hd, rfl, .left (fun herror => by cases herror)⟩
    | ok made =>
      obtain ⟨i, opened⟩ := made
      have hstored := hcreate d i opened (copied obj z.size s.strict).1 z hz hne hd hmade
      have hw := Disk.create_wrote hmade (copied obj z.size s.strict).1
      rw [copyFile_opened z.size hobj hmade]
      cases hcopied : (copied obj z.size s.strict).2 with
      | error err => exact ⟨_, _, hstored, rfl, .left (fun herror => by cases herror)⟩
      | ok errors =>
        refine ⟨_, _, hstored, rfl, ends_preserveMode hz rfl (fun _ hdir => absurd hdir hne)
          (fun _ _ => ⟨?_, i, ?_⟩)⟩
        · simp [Complete, htype, content, hobj, hcopied]
        · rw [hw.node, if_pos rfl]

theorem linkRegular_ends {d : Disk (List UInt8)} (hz : e.znode = some z)
    (htype : z.fileType = .regular) {first : Written}
    (hfirst : t.writtenObjects.lookup e.object = some first) :
    ∃ r, (linkRegular s (components e.rawPath) first (recordOf fs e z) d t).files = t.files ++ [r] ∧
      Ends s fs t e d r (linkRegular s (components e.rawPath) first (recordOf fs e z) d t).disk := by
  rw [linkRegular]
  cases hsource : safeJoin first.rawPath with
  | none => exact ⟨_, rfl, .left (fun herror => by cases herror)⟩
  | some source =>
    simp only []
    cases hlink : d.hardLink (s.refuses t.files.length) source (components e.rawPath) with
    | error err => exact ⟨_, rfl, .left (fun herror => by cases herror)⟩
    | ok linked => exact ⟨_, rfl, .linked z first source linked hz htype rfl hfirst hsource hlink⟩

include hmkdir hcreate hstart

/-- What an entry does to the disk: it makes directories and a file, and ends. -/
theorem extractEntry_ends :
    ∃ d r, P d ∧ (extractEntry s fs t e).files = t.files ++ [r] ∧
      Ends s fs t e d r (extractEntry s fs t e).disk := by
  rw [extractEntry]
  cases hz : e.znode with
  | none => exact ⟨t.disk, _, hstart, rfl, .left (fun herror => by cases herror)⟩
  | some z =>
    cases hdest : safeJoin e.rawPath with
    | none => exact ⟨t.disk, _, hstart, rfl, .left (fun herror => by cases herror)⟩
    | some dest =>
      simp only []
      have hne := safeJoin_ne_nil hdest
      rw [← safeJoin_eq hdest] at hne ⊢
      cases htype : z.fileType with
      | dir =>
        refine ⟨_, _, hmkdir _ (components e.rawPath) (fun q => makes_dir hz htype) hstart, rfl,
          ends_preserveMode hz rfl (fun herror _ => ?_) (fun _ hfile => absurd htype hfile)⟩
        exact Disk.mkdirAll_ok hne (Option.map_eq_none_iff.mp herror)
      | symlink =>
        simp only [extractSymlink]
        cases htarget : fs.symlinkTarget e.object z with
        | error err => exact ⟨t.disk, _, hstart, rfl, .left (fun herror => by cases herror)⟩
        | ok target =>
          simp only [write]
          cases hmade : t.disk.create (s.refuses t.files.length) (components e.rawPath) with
          | error err =>
            refine ⟨t.disk, _, hstart, rfl, ends_preserveMode hz rfl ?_ ?_⟩
            · intro herror
              cases herror
            · intro herror
              cases herror
          | ok made =>
            obtain ⟨i, opened⟩ := made
            have hw := Disk.create_wrote hmade target
            have hne : z.fileType ≠ .dir := by simp [htype]
            refine ⟨_, _, hcreate _ _ _ target z hz hne hstart hmade, rfl,
              ends_preserveMode hz rfl (fun _ hdir => absurd hdir hne) (fun _ _ => ⟨?_, i, ?_⟩)⟩
            · simp [Complete, htype, htarget, Except.toOption]
            · rw [hw.node, if_pos rfl]
      | regular =>
        have hparent : ∃ disk, disk = (if (components e.rawPath).dropLast = [] then t.disk
            else (t.disk.mkdirAll (s.refuses t.files.length) (components e.rawPath).dropLast).1) ∧
            P disk := by
          refine ⟨_, rfl, ?_⟩
          split
          · exact hstart
          · exact hmkdir _ _ (fun q => makes_regular hz htype) hstart
        obtain ⟨disk, hdisk, hP⟩ := hparent
        simp only [extractRegular, ← hdisk]
        cases hlookup : t.writtenObjects.lookup e.object with
        | some first =>
          obtain ⟨r, hfiles, hends⟩ := linkRegular_ends hz htype hlookup
          exact ⟨disk, r, hP, hfiles, hends⟩
        | none => exact copyRegular_ends hP hz htype hcreate
      | charDevice | blockDevice | fifo | socket | other =>
        exact ⟨t.disk, _, hstart, rfl, .left (fun herror => by cases herror)⟩

end Ends

/-! ## A run with permissions beside a run without -/

/-- An entry that comes after others in a walk of a tree. -/
structure Turn (fs : Filesystem) (es done : List Entry) (e : Entry) : Prop where
  among : Among fs es done e
  plan : Planned es
  follows : ∀ e' ∈ done, Follows e' e

/-- What an entry has made before it ends. -/
structure Making (done : List Entry) (e : Entry) (d d' : Disk (List UInt8)) : Prop where
  grows : d.Grows d'
  within : Within (done ++ [e]) d'
  own : e.znode ≠ none → ∀ i, d'.node (components e.rawPath) = some (.file i) →
    i = components e.rawPath

section Turn

variable {s : Setting} {fs : Filesystem} {es done : List Entry} {e : Entry}
  {d d' : Disk (List UInt8)} {t : State}

/-- Nothing is at the path of an entry before its turn, but for a directory. -/
theorem Turn.no_file (hturn : Turn fs es done e) (h : Within done d) (hz : e.znode ≠ none)
    (i : Path) : d.node (components e.rawPath) ≠ some (.file i) := by
  intro hfile
  obtain ⟨e', he', -, -, -, hpath⟩ := h.files _ i hfile
  refine hz (hturn.follows e' he' ?_).2
  rw [hpath]

theorem Turn.missing (hturn : Turn fs es done e) (h : Within done d) {z : Znode}
    (hz : e.znode = some z) (hfile : z.fileType ≠ .dir) : d.node (components e.rawPath) = none := by
  cases hnode : d.node (components e.rawPath) with
  | none => rfl
  | some n =>
    cases n with
    | dir => exact absurd hnode (h.no_dir hturn.plan hturn.among.done hturn.among.next hz hfile)
    | file i => exact absurd hnode (hturn.no_file h (by simp [hz]) i)

theorem Making.start (hturn : Turn fs es done e) (h : Within done d) : Making done e d d :=
  ⟨Disk.Grows.refl d, h.later e, fun hz i hi => absurd hi (hturn.no_file h hz i)⟩

theorem Making.mkdirAll (h : Making done e d d') {refuses : Refusals (List UInt8)} {p : Path}
    (hp : ∀ q, Makes e q ↔ q ≠ [] ∧ q <+: p) : Making done e d (d'.mkdirAll refuses p).1 := by
  have hsame := d'.mkdirAll_sameFiles refuses p
  refine ⟨h.grows.trans (d'.mkdirAll_grows refuses p), ⟨fun q hq => ?_, fun q i hq => ?_⟩,
    fun hz i hi => h.own hz i ((hsame.node _ i).mp hi)⟩
  · rcases Disk.mkdirAll_dir hq with hold | hmade
    · exact h.within.dirs q hold
    · exact ⟨e, List.mem_append_right _ (List.mem_singleton_self e), (hp q).mpr hmade⟩
  · exact h.within.files q i ((hsame.node q i).mp hq)

/-- A file that was put at the path of an entry. -/
theorem Within.put (h : Within (done ++ [e]) d) {z : Znode} (hz : e.znode = some z)
    (hfile : z.fileType ≠ .dir) {i : Path}
    (hnode : ∀ q, d'.node q = if q = components e.rawPath then some (.file i) else d.node q) :
    Within (done ++ [e]) d' := by
  refine ⟨fun q hq => ?_, fun q j hq => ?_⟩
  · rw [hnode] at hq
    split at hq
    · cases hq
    · exact h.dirs q hq
  · rw [hnode] at hq
    split at hq
    · rename_i heq
      exact ⟨e, List.mem_append_right _ (List.mem_singleton_self e), z, hz, hfile, heq.symm⟩
    · exact h.files q j hq

theorem Making.create (h : Making done e d d') {refuses : Refusals (List UInt8)} {i : Path}
    {made : Disk (List UInt8)} {z : Znode} (hz : e.znode = some z) (hfile : z.fileType ≠ .dir)
    (hok : d'.create refuses (components e.rawPath) = .ok (i, made)) (bytes : List UInt8) :
    Making done e d (made.store i bytes) := by
  have hw := Disk.create_wrote hok bytes
  refine ⟨h.grows.trans ((Disk.create_grows hok).store i bytes), h.within.put hz hfile hw.node,
    fun hz j hj => ?_⟩
  rw [hw.node, if_pos rfl] at hj
  cases hj
  rcases hw.named with hnamed | ⟨-, hi⟩
  · exact h.own hz i hnamed
  · exact hi

/-- What an entry makes, and how it ends. -/
theorem Turn.ends (hturn : Turn fs es done e) (h : Within done t.disk) :
    ∃ d r, Making done e t.disk d ∧ (extractEntry s fs t e).files = t.files ++ [r] ∧
      Ends s fs t e d r (extractEntry s fs t e).disk :=
  extractEntry_ends (fun _ _ hp hd => hd.mkdirAll hp)
    (fun _ _ _ bytes _ hz hfile hd hok => hd.create hz hfile hok bytes) (Making.start hturn h)

end Turn

/-- A run in which permissions may be preserved, beside one where nothing is refused. -/
structure Beside (s : Setting) (fs : Filesystem) (done : List Entry) (t t' : State) : Prop where
  like : t.Like t'
  kept : Kept s.free fs (fun _ => none) done t
  within : Within done t'.disk
  /-- Permissions are those of an entry that was written. -/
  set : ∀ i mode, t'.disk.mode i = some mode → "mode" ∈ s.preserve ∧
    ∃ e ∈ done, ∃ z, e.znode = some z ∧ z.permissions = mode ∧
      (z.fileType = .dir ∨ Complete s fs e z) ∧ t'.disk.inode (components e.rawPath) = some i
  /-- An entry that was written has its permissions. -/
  modes : "mode" ∈ s.preserve → ∀ p ∈ done.zip t'.files, p.2.error = none →
    ∃ z, p.1.znode = some z ∧ p.2.mode = octal z.permissions ∧
      t'.disk.modeAt (components p.1.rawPath) = some z.permissions
  /-- A directory is written, and a file in the output directory. -/
  clean : ∀ p ∈ done.zip t.files, ∀ z, p.1.znode = some z →
    (z.fileType = .dir ∨ Complete s fs p.1 z ∧ (components p.1.rawPath).dropLast = []) →
      p.2.error = none

section Beside

variable {s : Setting} {fs : Filesystem} {es done : List Entry} {e : Entry} {t t' : State}

theorem Beside.start :
    Beside s fs [] (start (Disk.existing (fun _ => none))) (start (Disk.existing (fun _ => none))) where
  like := ⟨Disk.Alike.refl _, rfl, rfl, rfl⟩
  kept := Kept.start
  within := Laid.start.within
  set i mode h := by cases h
  modes _ p hp := by cases hp
  clean p hp := by cases hp

theorem Beside.kempt (h : Beside s fs done t t') : t'.disk.Kempt := by
  intro q hq
  cases hmode : t'.disk.mode q with
  | none => rfl
  | some mode =>
    obtain ⟨-, e, -, z, -, -, -, hinode⟩ := h.set q mode hmode
    exact absurd hq (Disk.node_inode hinode)

/-- A directory is closed by an entry. -/
theorem Beside.shut (h : Beside s fs done t t') (hplan : Planned es) (hdone : ∀ e ∈ done, e ∈ es)
    {q : Path} (hclosed : t'.disk.closed q = true) :
    "mode" ∈ s.preserve ∧ ∃ d ∈ done, Shut d ∧ components d.rawPath = q := by
  obtain ⟨hdir, mode, hmode, hshut⟩ := Disk.closed_iff.mp hclosed
  obtain ⟨hpreserve, d, hd, z, hz, rfl, -, hinode⟩ := h.set q mode hmode
  have hpath := Disk.inode_eq_dir hdir hinode
  refine ⟨hpreserve, d, hd, ⟨z, hz, ?_, hshut⟩, hpath⟩
  by_contra hfile
  refine h.within.no_dir hplan hdone (hdone d hd) hz hfile ?_
  rw [hpath]
  exact hdir

/-- An entry is let be written where no directory is closed that it makes something in. -/
theorem Beside.permits (h : Beside s fs done t t') (hturn : Turn fs es done e)
    (hallowed : "mode" ∈ s.preserve → ∀ d ∈ done, Shut d → ∀ q, Wants s fs e q →
      q.dropLast ≠ components d.rawPath) : Permits s fs t'.disk e where
  missing q hq _ := by
    by_contra hclosed
    obtain ⟨hpreserve, d, hd, hshut, hpath⟩ :=
      h.shut hturn.plan hturn.among.done (Bool.not_eq_false _ ▸ hclosed)
    exact hallowed hpreserve d hd hshut q hq hpath.symm
  there hz i hi := absurd hi (hturn.no_file h.within hz i)

/-- The bytes of an object that was written are there. -/
theorem Beside.linked (h : Beside s fs done t t') (hturn : Turn fs es done e) {z : Znode}
    (hz : e.znode = some z) (htype : z.fileType = .regular)
    (hlookup : t.writtenObjects.lookup e.object ≠ none) : bytesOf s fs e.object z ≠ none := by
  obtain ⟨w, hw⟩ := Option.ne_none_iff_exists'.mp hlookup
  obtain ⟨p, hp, digest, -, hrecorded, hobject, -⟩ := h.kept.written _ w hw
  obtain ⟨-, bytes, hcontent, -⟩ := h.kept.regular hturn.among hz hp hrecorded hobject
  have hcontent : content s fs e.object z.size = some bytes := hcontent
  rw [content] at hcontent
  rw [bytesOf, htype]
  cases hobj : fs.object e.object with
  | error err =>
    rw [hobj] at hcontent
    cases hcontent
  | ok obj => exact Option.some_ne_none _

end Beside

/-! ## What is written where nothing is refused -/

section Free

variable {s : Setting} {fs : Filesystem} {es done : List Entry} {e : Entry} {t t' : State}
  {z : Znode} (h : Beside s fs done t t') (hturn : Turn fs es done e) (hz : e.znode = some z)

theorem Beside.within_free (h : Beside s fs done t t') : Within done t.disk := by
  obtain ⟨hdirs, hfiles⟩ := h.within
  rw [h.like.disk.node] at hdirs hfiles
  exact ⟨hdirs, hfiles⟩

/-- The directories of an entry are made. -/
theorem Turn.mkdirAll (hturn : Turn fs es done e) {d : Disk (List UInt8)} (h : Within done d)
    {p : Path} (hp : ∀ q, Makes e q ↔ q ≠ [] ∧ q <+: p) :
    (d.mkdirAll freely p).2 = none ∧
      ∀ q, Makes e q → (d.mkdirAll freely p).1.node q = some .dir := by
  obtain ⟨hnone, hnode⟩ := Disk.mkdirAll_free (fun _ _ => rfl)
    (fun q hne hq i => h.no_file hturn.plan hturn.among.done hturn.among.next
      ((hp q).mpr ⟨hne, hq⟩) i)
  exact ⟨hnone, fun q hq => (hnode q).1 ((hp q).mp hq)⟩

include h hturn hz

theorem Beside.free_dir (htype : z.fileType = .dir) :
    (∀ q, Makes e q → (Files.extractEntry s.free fs t e).disk.node q = some .dir) ∧
      ∃ r, (Files.extractEntry s.free fs t e).files = t.files ++ [r] ∧ r.error = none := by
  obtain ⟨hnone, hmade⟩ := hturn.mkdirAll h.within_free (fun q => makes_dir hz htype)
  rw [Files.extractEntry, hz]
  simp only [hturn.plan.safe e hturn.among.next z hz, htype]
  refine ⟨fun q hq => ?_, _, rfl, ?_⟩
  · simp only [extractDir, preserveMode_node]
    exact hmade q hq
  · show Option.map _ (t.disk.mkdirAll freely (components e.rawPath)).2 = none
    rw [hnone]
    rfl

theorem Beside.free_symlink (htype : z.fileType = .symlink) (hbytes : bytesOf s fs e.object z ≠ none)
    (hdir : (components e.rawPath).dropLast = [] ∨
      t.disk.node (components e.rawPath).dropLast = some .dir) :
    (Files.extractEntry s.free fs t e).disk.node (components e.rawPath) ≠ none ∧
      ∃ r, (Files.extractEntry s.free fs t e).files = t.files ++ [r] ∧ r.error = none := by
  have hwithin := h.within_free
  rw [Files.extractEntry, hz]
  simp only [hturn.plan.safe e hturn.among.next z hz, htype, extractSymlink]
  cases htarget : fs.symlinkTarget e.object z with
  | error err => simp [bytesOf, htype, htarget, Except.toOption] at hbytes
  | ok target =>
    have hmissing := hturn.missing hwithin hz (by simp [htype])
    obtain ⟨i, made, hcreate⟩ : ∃ i made,
        t.disk.create freely (components e.rawPath) = .ok (i, made) :=
      Disk.create_free (fun _ _ => rfl)
        (hwithin.not_blocked hturn.plan hturn.among.done hdir) (by simp [hmissing])
    have hwrite : write (s.free.refuses t.files.length) (components e.rawPath) target t.disk =
        (made.store i target, none) := by
      have hfree : s.free.refuses t.files.length = freely := rfl
      rw [write, hfree, hcreate]
    have hw := Disk.create_wrote hcreate target
    refine ⟨?_, _, rfl, ?_⟩
    · simp only [hwrite, preserveMode_node, hw.node, if_pos]
      exact Option.some_ne_none _
    · simp only [hwrite]

theorem Beside.free_regular (htype : z.fileType = .regular) :
    (∀ q, Makes e q → (Files.extractEntry s.free fs t e).disk.node q ≠ none) ∧
      (bytesOf s fs e.object z ≠ none →
        (Files.extractEntry s.free fs t e).disk.node (components e.rawPath) ≠ none) ∧
      (Complete s fs e z → ∃ r, (Files.extractEntry s.free fs t e).files = t.files ++ [r] ∧
        r.error = none) := by
  have hwithin := h.within_free
  have hsafe := hturn.plan.safe e hturn.among.next z hz
  have hdone : ∀ e' ∈ done ++ [e], e' ∈ es := by
    intro e' he'
    rcases List.mem_append.mp he' with he' | he'
    · exact hturn.among.done e' he'
    · rw [List.mem_singleton.mp he']
      exact hturn.among.next
  -- What leads to the file is made first.
  obtain ⟨disk, hdisk, hmaking, hmade, hsame⟩ : ∃ disk,
      disk = (if (components e.rawPath).dropLast = [] then t.disk
        else (t.disk.mkdirAll freely (components e.rawPath).dropLast).1) ∧
      Making done e t.disk disk ∧ (∀ q, Makes e q → disk.node q = some .dir) ∧
      t.disk.SameFiles disk := by
    refine ⟨_, rfl, ?_⟩
    obtain ⟨-, hmade⟩ := hturn.mkdirAll hwithin (fun q => makes_regular hz htype)
    by_cases hroot : (components e.rawPath).dropLast = []
    · rw [if_pos hroot]
      refine ⟨Making.start hturn hwithin, fun q hq => ?_, Disk.SameFiles.refl _⟩
      rw [makes_regular hz htype, hroot] at hq
      exact absurd (List.prefix_nil.mp hq.2) hq.1
    · rw [if_neg hroot]
      exact ⟨(Making.start hturn hwithin).mkdirAll (fun q => makes_regular hz htype), hmade,
        t.disk.mkdirAll_sameFiles _ _⟩
  have hdir : (components e.rawPath).dropLast = [] ∨
      disk.node (components e.rawPath).dropLast = some .dir := by
    by_cases hroot : (components e.rawPath).dropLast = []
    · exact Or.inl hroot
    · exact Or.inr (hmade _ ((makes_regular hz htype).mpr ⟨hroot, List.prefix_refl _⟩))
  have hblocked := hmaking.within.not_blocked hturn.plan hdone hdir
  have hmissing : disk.node (components e.rawPath) = none := by
    cases hnode : disk.node (components e.rawPath) with
    | none => rfl
    | some n =>
      cases n with
      | dir =>
        exact absurd hnode
          (hmaking.within.no_dir hturn.plan hdone hturn.among.next hz (by simp [htype]))
      | file i =>
        exact absurd ((hsame.node _ i).mp hnode) (hturn.no_file hwithin (by simp [hz]) i)
  rw [Files.extractEntry, hz]
  simp only [hsafe, htype]
  rw [Files.extractRegular, show s.free.refuses t.files.length = freely from rfl, ← hdisk]
  cases hlookup : t.writtenObjects.lookup e.object with
  | some first =>
    obtain ⟨p, hp, digest, source, hrecorded, hobject, hpath, hsha, hsource, hnode⟩ :=
      h.kept.written _ first hlookup
    obtain ⟨linked, hok⟩ : ∃ linked, disk.hardLink (s.free.refuses t.files.length) source
        (components e.rawPath) = .ok linked :=
      ⟨_, Disk.hardLink_of_linkable ((hsame.node source source).mpr hnode) hblocked hmissing⟩
    obtain ⟨i, hl⟩ := Disk.hardLink_linked hok
    refine ⟨fun q hq => linkRegular_stays (by rw [hmade q hq]; exact Option.some_ne_none _),
      fun _ => ?_, fun _ => ?_⟩
    · simp only [Files.linkRegular, hsource, hok, hl.node, if_pos]
      exact Option.some_ne_none _
    · simp only [Files.linkRegular, hsource, hok]
      exact ⟨_, rfl, rfl⟩
  | none =>
    refine ⟨fun q hq => copyRegular_stays (copyFile_stays
      (by rw [hmade q hq]; exact Option.some_ne_none _)), ?_⟩
    cases hobj : fs.object e.object with
    | error err => simp [bytesOf, Complete, htype, content, hobj, Except.toOption]
    | ok obj =>
      obtain ⟨i, made, hcreate⟩ : ∃ i made, disk.create (s.free.refuses t.files.length)
          (components e.rawPath) = .ok (i, made) :=
        Disk.create_free (fun _ _ => rfl) hblocked (by simp [hmissing])
      have hw := Disk.create_wrote hcreate (copied obj z.size s.free.strict).1
      have hcopy := copyFile_opened (s := s.free) z.size hobj hcreate
      refine ⟨fun _ => copyRegular_stays ?_, fun hwhole => ?_⟩
      · rw [hcopy]
        simp only [hw.node, if_pos]
        exact Option.some_ne_none _
      · rw [Files.copyRegular, hcopy]
        cases hcopied : (copied obj z.size s.strict).2 with
        | error err => simp [Complete, htype, content, hobj, hcopied] at hwhole
        | ok errors =>
          have hcopied : (copied obj z.size s.free.strict).2 = .ok errors := hcopied
          rw [hcopied]
          exact ⟨_, rfl, rfl⟩

end Free

/-! ## One entry in both runs -/

section Beside

variable {s : Setting} {fs : Filesystem} {es done : List Entry} {e : Entry} {t t' : State}

section Step

variable (h : Beside s fs done t t') (hturn : Turn fs es done e) {d : Disk (List UInt8)}
  (hmaking : Making done e t'.disk d)

include h hturn hmaking

/-- What is at the path of an entry is no entry's before. -/
theorem Beside.inode_ne {e' : Entry} (he' : e' ∈ done) (hz : e.znode ≠ none)
    (hthere : t'.disk.inode (components e'.rawPath) ≠ none) :
    d.inode (components e'.rawPath) ≠ d.inode (components e.rawPath) := by
  intro heq
  obtain ⟨i, hi⟩ := Option.ne_none_iff_exists'.mp hthere
  have hnode : t'.disk.node (components e'.rawPath) ≠ none := by
    intro hnone
    rw [Disk.inode, hnone] at hi
    cases hi
  rw [hmaking.grows.inode_eq hnode, hi] at heq
  have hinode := heq.symm
  rw [Disk.inode] at hinode
  split at hinode
  · cases hinode
  · -- A directory has one path.
    rename_i hdir
    rw [← hmaking.grows.inode_eq hnode] at hi
    have hpath := Disk.inode_eq_dir hdir (hi.trans hinode.symm)
    refine hz (hturn.follows e' he' ?_).2
    rw [hpath]
  · -- A file was just made.
    rename_i j hfile
    rw [hmaking.own hz j hfile] at hinode
    rw [← Option.some.inj hinode] at hi
    obtain ⟨z, hz'⟩ := Option.ne_none_iff_exists'.mp hz
    by_cases hdir : z.fileType = .dir
    · obtain ⟨e'', he'', z'', hz'', hnot, hpath⟩ := hmaking.within.files _ j hfile
      rcases List.mem_append.mp he'' with he'' | he''
      · refine hz (hturn.follows e'' he'' ?_).2
        rw [hpath]
      · rw [List.mem_singleton.mp he'', hz'] at hz''
        cases hz''
        exact hnot hdir
    · exact Disk.node_inode hi (hturn.missing h.within hz' hdir)

omit hturn in
/-- What was set stays as it is while an entry is made. -/
theorem Beside.set_making {i : Path} {mode : Nat} (hmode : d.mode i = some mode) :
    "mode" ∈ s.preserve ∧ ∃ e' ∈ done, ∃ z, e'.znode = some z ∧ z.permissions = mode ∧
      (z.fileType = .dir ∨ Complete s fs e' z) ∧ d.inode (components e'.rawPath) = some i := by
  rw [hmaking.grows.mode] at hmode
  obtain ⟨hpreserve, e', he', z, hz, hmode, hwhole, hinode⟩ := h.set i mode hmode
  refine ⟨hpreserve, e', he', z, hz, hmode, hwhole, ?_⟩
  rw [hmaking.grows.inode_eq ?_, hinode]
  intro hnone
  rw [Disk.inode, hnone] at hinode
  cases hinode

omit hturn in
theorem Beside.modes_making (hpreserve : "mode" ∈ s.preserve) {p : Entry × Extracted}
    (hp : p ∈ done.zip t'.files) (herror : p.2.error = none) :
    ∃ z, p.1.znode = some z ∧ p.2.mode = octal z.permissions ∧
      t'.disk.inode (components p.1.rawPath) ≠ none ∧
      d.modeAt (components p.1.rawPath) = some z.permissions := by
  obtain ⟨z, hz, hmode, hat⟩ := h.modes hpreserve p hp herror
  have hinode : t'.disk.inode (components p.1.rawPath) ≠ none := by
    intro hnone
    rw [Disk.modeAt, hnone] at hat
    cases hat
  refine ⟨z, hz, hmode, hinode, ?_⟩
  rw [hmaking.grows.modeAt_eq ?_, hat]
  intro hnone
  rw [Disk.inode, hnone] at hinode
  exact hinode rfl

variable {r : Extracted} {d' : Disk (List UInt8)} (hends : Ends s fs t' e d r d')

include hends

omit h hturn in
theorem Making.within_after : Within (done ++ [e]) d' := by
  cases hends with
  | left _ => exact hmaking.within
  | set z _ _ _ _ _ _ =>
    refine ⟨fun q hq => hmaking.within.dirs q ?_, fun q i hq => hmaking.within.files q i ?_⟩
    · rw [Disk.setMode_node] at hq
      exact hq
    · rw [Disk.setMode_node] at hq
      exact hq
  | linked z first source linked hz htype _ _ _ hlink =>
    obtain ⟨i, hlinked⟩ := Disk.hardLink_linked hlink
    exact hmaking.within.put hz (by simp [htype]) hlinked.node

omit hturn in
theorem Beside.set_after {i : Path} {mode : Nat} (hmode : d'.mode i = some mode) :
    "mode" ∈ s.preserve ∧ ∃ e' ∈ done ++ [e], ∃ z, e'.znode = some z ∧ z.permissions = mode ∧
      (z.fileType = .dir ∨ Complete s fs e' z) ∧ d'.inode (components e'.rawPath) = some i := by
  have hold : d.mode i = some mode → (∀ q, d.inode q = some i → d'.inode q = some i) →
      "mode" ∈ s.preserve ∧ ∃ e' ∈ done ++ [e], ∃ z, e'.znode = some z ∧ z.permissions = mode ∧
        (z.fileType = .dir ∨ Complete s fs e' z) ∧ d'.inode (components e'.rawPath) = some i := by
    intro hmode hinode
    obtain ⟨hpreserve, e', he', z, hz, hperm, hwhole, hi⟩ := h.set_making hmaking hmode
    exact ⟨hpreserve, e', List.mem_append_left _ he', z, hz, hperm, hwhole, hinode _ hi⟩
  cases hends with
  | left _ => exact hold hmode (fun q hq => hq)
  | set z hz _ hdir hfile _ hpreserve =>
    rw [Disk.setMode_mode] at hmode
    by_cases hi : d.inode (components e.rawPath) = some i
    · rw [if_pos hi] at hmode
      refine ⟨hpreserve, e, List.mem_append_right _ (List.mem_singleton_self e), z, hz,
        Option.some.inj hmode, ?_, ?_⟩
      · by_cases htype : z.fileType = .dir
        · exact Or.inl htype
        · exact Or.inr (hfile htype).1
      · rw [Disk.setMode_inode]
        exact hi
    · rw [if_neg hi] at hmode
      exact hold hmode (fun q hq => by rw [Disk.setMode_inode]; exact hq)
  | linked z first source linked hz htype _ _ _ hlink =>
    have hgrows := Disk.hardLink_grows hlink
    rw [hgrows.mode] at hmode
    refine hold hmode (fun q hq => ?_)
    rw [hgrows.inode_eq ?_, hq]
    intro hnone
    rw [Disk.inode, hnone] at hq
    cases hq

theorem Beside.modes_after (hpreserve : "mode" ∈ s.preserve) {p : Entry × Extracted}
    (hp : p ∈ (done ++ [e]).zip (t'.files ++ [r])) (herror : p.2.error = none) :
    ∃ z, p.1.znode = some z ∧ p.2.mode = octal z.permissions ∧
      d'.modeAt (components p.1.rawPath) = some z.permissions := by
  have hlength : done.length = t'.files.length := by rw [h.like.files, h.kept.length]
  rw [List.zip_append hlength] at hp
  cases hends with
  | left hleft =>
    rcases List.mem_append.mp hp with hp | hp
    · obtain ⟨z, hz, hmode, -, hat⟩ := h.modes_making hmaking hpreserve hp herror
      exact ⟨z, hz, hmode, hat⟩
    · rw [List.zip_cons_cons, List.zip_nil_right, List.mem_singleton] at hp
      rw [hp] at herror
      exact absurd hpreserve (hleft herror)
  | set z hz hmode hdir hfile _ _ =>
    rcases List.mem_append.mp hp with hp | hp
    · obtain ⟨z', hz', hmode', hthere, hat⟩ := h.modes_making hmaking hpreserve hp herror
      refine ⟨z', hz', hmode', ?_⟩
      have hne := h.inode_ne hturn hmaking (List.of_mem_zip hp).1 (by simp [hz]) hthere
      rw [Disk.setMode_modeAt, if_neg (fun heq => hne heq.2)]
      exact hat
    · rw [List.zip_cons_cons, List.zip_nil_right, List.mem_singleton] at hp
      rw [hp]
      have hthere : d.inode (components e.rawPath) ≠ none := by
        by_cases htype : z.fileType = .dir
        · simp [Disk.inode, hdir htype]
        · obtain ⟨-, i, hi⟩ := hfile htype
          simp [Disk.inode, hi]
      refine ⟨z, hz, hmode, ?_⟩
      rw [Disk.setMode_modeAt, if_pos ⟨hthere, rfl⟩]
  | linked z first source linked hz htype hmode hfirst hsource hlink =>
    have hgrows := Disk.hardLink_grows hlink
    rcases List.mem_append.mp hp with hp | hp
    · obtain ⟨z', hz', hmode', -, hat⟩ := h.modes_making hmaking hpreserve hp herror
      refine ⟨z', hz', hmode', ?_⟩
      rw [hgrows.modeAt_eq ?_, hat]
      intro hnone
      rw [Disk.modeAt, Disk.inode, hnone] at hat
      cases hat
    · rw [List.zip_cons_cons, List.zip_nil_right, List.mem_singleton] at hp
      rw [hp]
      refine ⟨z, hz, hmode, ?_⟩
      -- The first name has the permissions, and the file with it.
      rw [h.like.writtenObjects] at hfirst
      obtain ⟨p₀, hp₀, digest, dest, hrecorded, hobject, hpath, -, hdest, -⟩ :=
        h.kept.written _ first hfirst
      rw [hsource] at hdest
      cases hdest
      rw [← h.like.files] at hp₀
      obtain ⟨z₀, hz₀, -, -, hat⟩ := h.modes_making hmaking hpreserve hp₀ hrecorded.2.1
      have hsame : z₀ = z := hturn.among.known.znode_eq
        (hturn.among.done _ (List.of_mem_zip hp₀).1) hturn.among.next hobject hz₀ hz
      obtain ⟨i, hlinked⟩ := Disk.hardLink_linked hlink
      rw [hsame, hpath, safeJoin_eq hsource] at hat
      simp only [Disk.modeAt, Disk.inode, hlinked.source, Option.bind_some] at hat
      simp only [Disk.modeAt, Disk.inode, hlinked.node, if_pos, Option.bind_some, hgrows.mode]
      exact hat

end Step

theorem Beside.clean_free (h : Beside s fs done t t') (hturn : Turn fs es done e) {z : Znode}
    (hz : e.znode = some z) (hplace : z.fileType = .dir ∨
      Complete s fs e z ∧ (components e.rawPath).dropLast = []) :
    ∃ r, (Files.extractEntry s.free fs t e).files = t.files ++ [r] ∧ r.error = none := by
  rcases hplace with htype | ⟨hwhole, hroot⟩
  · exact (h.free_dir hturn hz htype).2
  · cases htype : z.fileType with
    | regular => exact (h.free_regular hturn hz htype).2.2 hwhole
    | symlink =>
      refine (h.free_symlink hturn hz htype ?_ (Or.inl hroot)).2
      simpa [bytesOf, Complete, htype] using hwhole
    | dir | charDevice | blockDevice | fifo | socket | other => simp [Complete, htype] at hwhole

/-- Both runs go on alike after an entry that makes nothing in a closed directory. -/
theorem Beside.extractEntry (hrefuses : ∀ time, Unprivileged (s.refuses time))
    (h : Beside s fs done t t') (hturn : Turn fs es done e)
    (hallowed : "mode" ∈ s.preserve → ∀ d ∈ done, Shut d → ∀ q, Wants s fs e q →
      q.dropLast ≠ components d.rawPath) :
    Beside s fs (done ++ [e]) (extractEntry s.free fs t e) (extractEntry s fs t' e) := by
  obtain ⟨d, r, hmaking, hfiles, hends⟩ := hturn.ends h.within (s := s)
  refine ⟨extractEntry_like hrefuses h.like h.kempt (h.permits hturn hallowed)
      (fun z hz htype hlookup => h.linked hturn hz htype hlookup),
    h.kept.extractEntry hturn.among, hmaking.within_after hends,
    fun i mode hmode => h.set_after hmaking hends hmode, fun hpreserve p hp herror => ?_,
    fun p hp z hz hplace => ?_⟩
  · rw [hfiles] at hp
    exact h.modes_after hturn hmaking hends hpreserve hp herror
  · obtain ⟨-, r', -, hfiles', -⟩ := hturn.ends h.within_free (s := s.free)
    rw [hfiles', List.zip_append h.kept.length.symm] at hp
    rcases List.mem_append.mp hp with hp | hp
    · exact h.clean p hp z hz hplace
    · rw [List.zip_cons_cons, List.zip_nil_right, List.mem_singleton] at hp
      rw [hp] at hz hplace ⊢
      obtain ⟨r, hr, herror⟩ := h.clean_free hturn hz hplace
      rw [hfiles', List.append_cancel_left_eq, List.singleton_inj] at hr
      rw [hr]
      exact herror

/-- What is left of a walk after some entries. -/
theorem turn_of_order (hknown : Known fs es) (hplan : Planned es) (horder : es.Pairwise Follows)
    {rest : List Entry} (hes : es = done ++ e :: rest) : Turn fs es done e := by
  refine ⟨⟨hknown, fun e' he' => ?_, ?_⟩, hplan, fun e' he' => ?_⟩
  · rw [hes]
    exact List.mem_append_left _ he'
  · rw [hes]
    exact List.mem_append_right _ List.mem_cons_self
  · rw [hes, List.pairwise_append] at horder
    exact horder.2.2 e' he' e List.mem_cons_self

theorem Wants.below (hplan : Planned es) (he : e ∈ es) {q : Path} (h : Wants s fs e q) :
    q ≠ [] ∧ q <+: components e.rawPath ∧ e.znode ≠ none := by
  rcases h with ⟨hne, z, hz, hmakes⟩ | ⟨rfl, z, hz, -⟩
  · refine ⟨hne, ?_, by simp [hz]⟩
    rcases hmakes with ⟨-, hpre⟩ | ⟨-, hpre⟩
    · exact hpre
    · exact hpre.trans (List.dropLast_prefix _)
  · exact ⟨safeJoin_ne_nil (hplan.safe e he z hz), List.prefix_refl _, by simp [hz]⟩

/-- What lies in the directory of an entry comes after it. -/
theorem mem_of_wants (hplan : Planned es) (horder : es.Pairwise Follows) {rest : List Entry}
    (hes : es = done ++ e :: rest) {d : Entry} (hd : d ∈ es) {q : Path} (hq : Wants s fs e q)
    (hpath : q.dropLast = components d.rawPath) : d ∈ done := by
  have he : e ∈ es := by
    rw [hes]
    exact List.mem_append_right _ List.mem_cons_self
  obtain ⟨hne, hpre, -⟩ := hq.below hplan he
  have hshorter : components d.rawPath ≠ components e.rawPath := by
    intro heq
    have hlength := hpre.length_le
    have hpos := List.length_pos_of_ne_nil hne
    rw [← heq, ← hpath, List.length_dropLast] at hlength
    omega
  rw [hes, List.mem_append, List.mem_cons] at hd
  rcases hd with hd | rfl | hd
  · exact hd
  · exact absurd rfl hshorter
  · rw [hes, List.pairwise_append, List.pairwise_cons] at horder
    have hfollows := horder.2.1.1 d hd
    refine absurd (hfollows ?_).1 hshorter
    rw [← hpath]
    exact (List.dropLast_prefix q).trans hpre

/-- A run is alike one where nothing is refused, where nothing is made in a closed directory. -/
theorem beside_from (hrefuses : ∀ time, Unprivileged (s.refuses time)) (hknown : Known fs es)
    (hplan : Planned es) (horder : es.Pairwise Follows) : ∀ (rest done after : List Entry)
    (t t' : State), es = done ++ rest ++ after → Beside s fs done t t' →
      ("mode" ∈ s.preserve → ∀ d ∈ es, Shut d → ∀ e ∈ rest, ∀ q, Wants s fs e q →
        q.dropLast ≠ components d.rawPath) →
      Beside s fs (done ++ rest) (rest.foldl (Files.extractEntry s.free fs) t)
        (rest.foldl (Files.extractEntry s fs) t') := by
  intro rest
  induction rest with
  | nil =>
    intro done after t t' _ h _
    rw [List.append_nil]
    exact h
  | cons e rest ih =>
    intro done after t t' hes h hallowed
    have hes' : es = done ++ e :: (rest ++ after) := by rw [hes]; simp
    have hturn := turn_of_order hknown hplan horder hes'
    have hstep := h.extractEntry hrefuses hturn (fun hpreserve d hd hshut q hq =>
      hallowed hpreserve d (hturn.among.done d hd) hshut e List.mem_cons_self q hq)
    have hrest := ih (done ++ [e]) after _ _ (by rw [hes]; simp) hstep
      (fun hpreserve d hd hshut e' he' => hallowed hpreserve d hd hshut e' (List.mem_cons_of_mem _ he'))
    rw [List.append_assoc] at hrest
    exact hrest

end Beside

end Files
end ZvolRescue
