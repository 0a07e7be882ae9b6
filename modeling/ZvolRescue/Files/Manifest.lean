import ZvolRescue.Files.Extract

/-!
# What the manifest says of the files

No entry is written over another one, because a file has more than one name only where its object
has, and the paths are apart.  The manifest itself is written last and spares nothing, so that what
it says is true exactly where no regular file is called `manifest.json` (`manifest_true_iff`).
-/

namespace ZvolRescue
namespace Files

open Lib Dmu Zpl

/-- A regular file was recorded without an error, and with a digest. -/
def Recorded (r : Extracted) (digest : String) : Prop :=
  r.kind = "-" ∧ r.error = none ∧ r.sha256 = some digest

/-- Every entry has a record, and each regular file that was recorded is at its own path, with
content of that digest. -/
def Truthful (s : Setting) (disk : Disk (List UInt8)) (es : List Entry) (files : List Extracted) :
    Prop :=
  files.length = es.length ∧ ∀ p ∈ es.zip files, ∀ digest, Recorded p.2 digest →
    ∃ dest file, safeJoin p.1.rawPath = some dest ∧ disk.node dest = some (.file file) ∧
      s.sha256 (disk.data file) = digest

/-- The components of a path are those of one object only. -/
def DistinctPaths (es : List Entry) : Prop :=
  ∀ e ∈ es, ∀ e' ∈ es, components e.rawPath = components e'.rawPath → e.object = e'.object

/-- The bytes that a copy of an object writes, when it succeeds. -/
def content (s : Setting) (fs : Filesystem) (object size : Nat) : Option (List UInt8) :=
  match fs.object object with
  | .error _ => none
  | .ok obj =>
    match (copied obj size s.strict).2 with
    | .error _ => none
    | .ok _ => some (copied obj size s.strict).1

/-- The entry is a regular file at the path of the manifest. -/
def AtManifest (e : Entry) (z : Znode) : Prop :=
  e.znode = some z ∧ z.fileType = .regular ∧ safeJoin e.rawPath = some manifestPath

/-- No regular file that can be copied lies at the path of the manifest. -/
def NoManifestFile (s : Setting) (fs : Filesystem) (es : List Entry) : Prop :=
  ∀ e ∈ es, ∀ z, AtManifest e z → content s fs e.object z.size = none

/-- Nothing is in the way of a file at the path of the manifest, and its digest is not that of
the manifest. -/
structure Unhindered (s : Setting) (fs : Filesystem) (es : List Entry)
    (before : Path → Option (Option (List UInt8))) (manifest : List UInt8) : Prop where
  new : before manifestPath = none
  create : ∀ time d, s.refuses time d (.create manifestPath) = none
  link : ∀ time d source, s.refuses time d (.link source manifestPath) = none
  digest : ∀ e ∈ es, ∀ z bytes, AtManifest e z → content s fs e.object z.size = some bytes →
    s.sha256 manifest ≠ s.sha256 bytes

/-! ## What each entry keeps -/

section Kept

variable (s : Setting) (fs : Filesystem) (before : Path → Option (Option (List UInt8)))

/-- What holds of the files, the names and the objects after some entries. -/
structure Kept (done : List Entry) (t : State) : Prop where
  length : t.files.length = done.length
  /-- A file that was recorded has the content of its object. -/
  recorded : ∀ p ∈ done.zip t.files, ∀ digest, Recorded p.2 digest →
    ∃ z dest file bytes, p.1.znode = some z ∧ z.fileType = .regular ∧
      safeJoin p.1.rawPath = some dest ∧ content s fs p.1.object z.size = some bytes ∧
      t.disk.node dest = some (.file file) ∧ t.disk.data file = bytes ∧ digest = s.sha256 bytes
  /-- Another name than the first is that of an object that was written under the first. -/
  named : ∀ q file, t.disk.node q = some (.file file) → q ≠ file →
    ∃ p ∈ done.zip t.files, (∃ digest, Recorded p.2 digest) ∧ safeJoin p.1.rawPath = some q ∧
      ∃ w, t.writtenObjects.lookup p.1.object = some w ∧ safeJoin w.rawPath = some file
  /-- An object that was written is recorded under a first name. -/
  written : ∀ object w, t.writtenObjects.lookup object = some w →
    ∃ p ∈ done.zip t.files, ∃ digest dest, Recorded p.2 digest ∧ p.1.object = object ∧
      p.1.rawPath = w.rawPath ∧ w.sha256 = some digest ∧ safeJoin w.rawPath = some dest ∧
      t.disk.node dest = some (.file dest)
  /-- A file that was not there before was made for an entry. -/
  made : ∀ q file, t.disk.node q = some (.file file) → before q = none →
    ∃ p ∈ done.zip t.files, safeJoin p.1.rawPath = some q ∧ ∃ z, p.1.znode = some z ∧
      (z.fileType = .symlink ∨ z.fileType = .regular ∧
        ∀ bytes, content s fs p.1.object z.size = some bytes → ∃ digest, Recorded p.2 digest)

variable {s fs before}

theorem Kept.start : Kept s fs before [] (start (Disk.existing before)) where
  length := rfl
  recorded p hp := by cases hp
  named q file h hne := by
    obtain ⟨content, hbefore, hnode⟩ := Option.map_eq_some_iff.mp h
    by_cases hfile : content.isSome = true
    · rw [if_pos hfile, Node.file.injEq] at hnode
      exact absurd hnode hne
    · rw [if_neg hfile] at hnode
      cases hnode
  written object w h := by cases h
  made q file h hnew := by
    obtain ⟨content, hbefore, -⟩ := Option.map_eq_some_iff.mp h
    rw [hnew] at hbefore
    cases hbefore

variable {done : List Entry} {t : State} {e : Entry}

theorem Kept.zip_append (h : Kept s fs before done t) (r : Extracted) :
    (done ++ [e]).zip (t.files ++ [r]) = done.zip t.files ++ [(e, r)] := by
  rw [List.zip_append h.length.symm]
  rfl

/-- Directories and permissions may change. -/
theorem Kept.disk (h : Kept s fs before done t) {t' : State} (hdisk : t.disk.SameFiles t'.disk)
    (hfiles : t'.files = t.files) (hwritten : t'.writtenObjects = t.writtenObjects) :
    Kept s fs before done t' where
  length := by rw [hfiles, h.length]
  recorded p hp digest hrecorded := by
    rw [hfiles] at hp
    obtain ⟨z, dest, file, bytes, hz, htype, hdest, hcontent, hnode, hdata, hdigest⟩ :=
      h.recorded p hp digest hrecorded
    refine ⟨z, dest, file, bytes, hz, htype, hdest, hcontent, (hdisk.node _ _).mpr hnode, ?_,
      hdigest⟩
    rw [hdisk.data]
    exact hdata
  named q file hnode hne := by
    rw [hfiles, hwritten]
    exact h.named q file ((hdisk.node _ _).mp hnode) hne
  written object w hlookup := by
    rw [hwritten] at hlookup
    rw [hfiles]
    obtain ⟨p, hp, digest, dest, hrecorded, hobject, hpath, hsha, hdest, hnode⟩ :=
      h.written object w hlookup
    exact ⟨p, hp, digest, dest, hrecorded, hobject, hpath, hsha, hdest, (hdisk.node _ _).mpr hnode⟩
  made q file hnode hnew := by
    rw [hfiles]
    exact h.made q file ((hdisk.node _ _).mp hnode) hnew

/-- An entry that is not recorded as a file with a digest. -/
theorem Kept.skip (h : Kept s fs before done t) {r : Extracted}
    (hnone : ∀ digest, ¬ Recorded r digest) :
    Kept s fs before (done ++ [e]) { t with files := t.files ++ [r] } where
  length := by rw [List.length_append, List.length_append, h.length]; rfl
  recorded p hp digest hrecorded := by
    rw [h.zip_append] at hp
    rcases List.mem_append.mp hp with hp | hp
    · exact h.recorded p hp digest hrecorded
    · rw [List.mem_singleton.mp hp] at hrecorded
      exact absurd hrecorded (hnone digest)
  named q file hnode hne := by
    rw [h.zip_append]
    obtain ⟨p, hp, hrest⟩ := h.named q file hnode hne
    exact ⟨p, List.mem_append_left _ hp, hrest⟩
  written object w hlookup := by
    rw [h.zip_append]
    obtain ⟨p, hp, hrest⟩ := h.written object w hlookup
    exact ⟨p, List.mem_append_left _ hp, hrest⟩
  made q file hnode hnew := by
    rw [h.zip_append]
    obtain ⟨p, hp, hrest⟩ := h.made q file hnode hnew
    exact ⟨p, List.mem_append_left _ hp, hrest⟩

/-- An entry that writes no file, and records none. -/
theorem Kept.sameFiles (h : Kept s fs before done t) {t' : State} {r : Extracted}
    (hdisk : t.disk.SameFiles t'.disk) (hfiles : t'.files = t.files ++ [r])
    (hwritten : t'.writtenObjects = t.writtenObjects) (hnone : ∀ digest, ¬ Recorded r digest) :
    Kept s fs before (done ++ [e]) t' :=
  (h.skip hnone).disk hdisk hfiles hwritten

/-- What is known of the entries of a run. -/
structure Known (fs : Filesystem) (es : List Entry) : Prop where
  distinct : DistinctPaths es
  read : ∀ e ∈ es, fs.Read e

theorem Known.znode_eq {es : List Entry} (h : Known fs es) {e e' : Entry} (he : e ∈ es)
    (he' : e' ∈ es) (hobject : e.object = e'.object) {z z' : Znode} (hz : e.znode = some z)
    (hz' : e'.znode = some z') : z = z' := by
  have hread : ∀ e ∈ es, ∀ z, e.znode = some z → (fs.znode e.object).toOption = some z := by
    intro e he z hz
    rcases h.read e he with hnone | hsome
    · rw [hnone] at hz
      cases hz
    · rw [← hsome, hz]
  have hone := hread e he z hz
  have htwo := hread e' he' z' hz'
  rw [hobject, htwo] at hone
  exact (Option.some.inj hone).symm

theorem Known.object_eq {es : List Entry} (h : Known fs es) {e e' : Entry} (he : e ∈ es)
    (he' : e' ∈ es) {dest : Path} (hdest : safeJoin e.rawPath = some dest)
    (hdest' : safeJoin e'.rawPath = some dest) : e.object = e'.object :=
  h.distinct e he e' he' ((safeJoin_eq hdest).trans (safeJoin_eq hdest').symm)

section Entries

variable {es : List Entry} {z : Znode} {dest : Path}

/-- The entries so far are some of those of the run, and so is the next. -/
structure Among (fs : Filesystem) (es done : List Entry) (e : Entry) : Prop where
  known : Known fs es
  done : ∀ e ∈ done, e ∈ es
  next : e ∈ es

/-- What is recorded has the type and the size of another entry of the same object. -/
theorem Kept.regular (h : Kept s fs before done t) (ha : Among fs es done e)
    (hz : e.znode = some z) {p : Entry × Extracted} (hp : p ∈ done.zip t.files) {digest : String}
    (hrecorded : Recorded p.2 digest) (hobject : p.1.object = e.object) :
    z.fileType = .regular ∧ ∃ bytes, content s fs e.object z.size = some bytes ∧
      digest = s.sha256 bytes := by
  obtain ⟨z', dest, file, bytes, hz', htype, -, hcontent, -, -, hdigest⟩ :=
    h.recorded p hp digest hrecorded
  have hsame : z' = z :=
    ha.known.znode_eq (ha.done _ (List.of_mem_zip hp).1) ha.next hobject hz' hz
  subst hsame
  rw [hobject] at hcontent
  exact ⟨htype, bytes, hcontent, hdigest⟩

/-- A path that an entry is about to write has one name, and is the first name of its file. -/
theorem Kept.apart (h : Kept s fs before done t) (ha : Among fs es done e)
    (hz : e.znode = some z) (hdest : safeJoin e.rawPath = some dest)
    (hnew : z.fileType = .regular → t.writtenObjects.lookup e.object = none) :
    (∀ i, t.disk.node dest = some (.file i) → i = dest) ∧
      ∀ q, t.disk.node q = some (.file dest) → q = dest := by
  have hunwritten : ∀ p ∈ done.zip t.files, ∀ digest, Recorded p.2 digest →
      p.1.object = e.object → ∀ w, t.writtenObjects.lookup p.1.object = some w → False := by
    intro p hp digest hrecorded hobject w hw
    have htype := (h.regular ha hz hp hrecorded hobject).1
    rw [hobject, hnew htype] at hw
    cases hw
  refine ⟨fun i hi => ?_, fun q hq => ?_⟩
  · by_contra hne
    obtain ⟨p, hp, ⟨digest, hrecorded⟩, hpath, w, hw, -⟩ := h.named dest i hi (Ne.symm hne)
    have hobject : p.1.object = e.object :=
      ha.known.object_eq (ha.done _ (List.of_mem_zip hp).1) ha.next hpath hdest
    exact hunwritten p hp digest hrecorded hobject w hw
  · by_contra hne
    obtain ⟨p, hp, -, -, w, hw, hwpath⟩ := h.named q dest hq hne
    obtain ⟨p', hp', digest, first, hrecorded, hobject', hpath', -, hfirst, -⟩ :=
      h.written p.1.object w hw
    have hobject : p'.1.object = e.object :=
      ha.known.object_eq (ha.done _ (List.of_mem_zip hp').1) ha.next
        (by rw [hpath']; exact hwpath) hdest
    rw [← hobject'] at hw
    exact hunwritten p' hp' digest hrecorded hobject w hw

/-- What an entry records that writes these bytes. -/
structure Writes (s : Setting) (fs : Filesystem) (e : Entry) (z : Znode) (bytes : List UInt8)
    (r : Extracted) : Prop where
  type : z.fileType = .symlink ∨ z.fileType = .regular
  content : z.fileType = .regular → ∀ b, content s fs e.object z.size = some b →
    b = bytes ∧ ∃ digest, Recorded r digest
  record : ∀ digest, Recorded r digest →
    z.fileType = .regular ∧ Files.content s fs e.object z.size = some bytes ∧
      digest = s.sha256 bytes

/-- An entry that writes a file. -/
theorem Kept.wrote (h : Kept s fs before done t) (ha : Among fs es done e)
    (hz : e.znode = some z) (hdest : safeJoin e.rawPath = some dest)
    (hnew : z.fileType = .regular → t.writtenObjects.lookup e.object = none)
    {bytes : List UInt8} {r : Extracted} (hr : Writes s fs e z bytes r) {t' : State} {i : Path}
    (hdisk : t.disk.Wrote t'.disk dest i bytes) (hfiles : t'.files = t.files ++ [r])
    (hwritten : t'.writtenObjects = t.writtenObjects ∨ ∃ digest path, Recorded r digest ∧
      t'.writtenObjects =
        (e.object, { path, rawPath := e.rawPath, sha256 := some digest }) :: t.writtenObjects) :
    Kept s fs before (done ++ [e]) t' := by
  obtain ⟨hfirst, honly⟩ := h.apart ha hz hdest hnew
  have hi : i = dest := by
    rcases hdisk.named with hfile | ⟨-, hi⟩
    · exact hfirst i hfile
    · exact hi
  subst hi
  have hnode : ∀ q, t'.disk.node q = if q = i then some (.file i) else t.disk.node q := hdisk.node
  have hkept : ∀ q, t.disk.node q = some (.file q) → t'.disk.node q = some (.file q) := by
    intro q hq
    rw [hnode]
    by_cases hqi : q = i
    · rw [if_pos hqi, hqi]
    · rw [if_neg hqi]
      exact hq
  have hlookup : ∀ object w, t.writtenObjects.lookup object = some w →
      t'.writtenObjects.lookup object = some w := by
    intro object w hw
    rcases hwritten with hsame | ⟨digest, path, hrecorded, hcons⟩
    · rw [hsame]
      exact hw
    · have hne : object ≠ e.object := by
        intro heq
        rw [heq, hnew (hr.record digest hrecorded).1] at hw
        cases hw
      rw [hcons, List.lookup_cons, beq_eq_false_iff_ne.mpr hne]
      exact hw
  have hmem : ∀ p, p ∈ done.zip t.files → p ∈ (done ++ [e]).zip t'.files := by
    intro p hp
    rw [hfiles, h.zip_append]
    exact List.mem_append_left _ hp
  have hlast : (e, r) ∈ (done ++ [e]).zip t'.files := by
    rw [hfiles, h.zip_append]
    exact List.mem_append_right _ (List.mem_singleton_self _)
  refine ⟨?_, fun p hp digest hrecorded => ?_, fun q file hq hne => ?_,
    fun object w hw => ?_, fun q file hq hbefore => ?_⟩
  · rw [hfiles, List.length_append, List.length_append, h.length]
    rfl
  · rw [hfiles, h.zip_append] at hp
    rcases List.mem_append.mp hp with hp | hp
    · obtain ⟨z', dest', file, bytes', hz', htype, hdest', hcontent, hfile, hdata, hdigest⟩ :=
        h.recorded p hp digest hrecorded
      by_cases heq : dest' = i
      · -- The same object was written here before, so these are the same bytes again.
        subst heq
        have hobject : p.1.object = e.object :=
          ha.known.object_eq (ha.done _ (List.of_mem_zip hp).1) ha.next hdest' hdest
        obtain ⟨hregular, b, hb, hdigest'⟩ := h.regular ha hz hp hrecorded hobject
        obtain ⟨rfl, -⟩ := hr.content hregular b hb
        have hsame : z' = z :=
          ha.known.znode_eq (ha.done _ (List.of_mem_zip hp).1) ha.next hobject hz' hz
        subst hsame
        refine ⟨z', dest', dest', b, hz', htype, hdest', by rw [hobject]; exact hb, ?_, ?_, hdigest'⟩
        · rw [hnode, if_pos rfl]
        · rw [hdisk.data, if_pos rfl]
      · have hapart : file ≠ i := by
          intro hfi
          rw [hfi] at hfile
          exact heq (honly dest' hfile)
        refine ⟨z', dest', file, bytes', hz', htype, hdest', hcontent, ?_, ?_, hdigest⟩
        · rw [hnode, if_neg heq]
          exact hfile
        · rw [hdisk.data, if_neg hapart]
          exact hdata
    · rw [List.mem_singleton.mp hp] at hrecorded ⊢
      obtain ⟨hregular, hcontent, hdigest⟩ := hr.record digest hrecorded
      refine ⟨z, i, i, bytes, hz, hregular, hdest, hcontent, ?_, ?_, hdigest⟩
      · rw [hnode, if_pos rfl]
      · rw [hdisk.data, if_pos rfl]
  · rw [hnode] at hq
    by_cases hqi : q = i
    · rw [if_pos hqi] at hq
      cases hq
      exact absurd hqi hne
    · rw [if_neg hqi] at hq
      obtain ⟨p, hp, hrecorded, hpath, w, hw, hwpath⟩ := h.named q file hq hne
      exact ⟨p, hmem p hp, hrecorded, hpath, w, hlookup _ _ hw, hwpath⟩
  · have hold : t.writtenObjects.lookup object = some w →
        ∃ p ∈ (done ++ [e]).zip t'.files, ∃ digest dest, Recorded p.2 digest ∧
          p.1.object = object ∧ p.1.rawPath = w.rawPath ∧ w.sha256 = some digest ∧
          safeJoin w.rawPath = some dest ∧ t'.disk.node dest = some (.file dest) := by
      intro hw
      obtain ⟨p, hp, digest, first, hrecorded, hobject, hpath, hsha, hfirst, hfile⟩ :=
        h.written object w hw
      exact ⟨p, hmem p hp, digest, first, hrecorded, hobject, hpath, hsha, hfirst,
        hkept first hfile⟩
    rcases hwritten with hsame | ⟨digest, path, hrecorded, hcons⟩
    · rw [hsame] at hw
      exact hold hw
    · rw [hcons, List.lookup_cons] at hw
      by_cases hobject : object = e.object
      · rw [beq_iff_eq.mpr hobject] at hw
        cases hw
        exact ⟨(e, r), hlast, digest, i, hrecorded, hobject.symm, rfl, rfl, hdest,
          by rw [hnode, if_pos rfl]⟩
      · rw [beq_eq_false_iff_ne.mpr hobject] at hw
        exact hold hw
  · rw [hnode] at hq
    by_cases hqi : q = i
    · refine ⟨(e, r), hlast, by rw [hqi]; exact hdest, z, hz, ?_⟩
      rcases hr.type with hsymlink | hregular
      · exact Or.inl hsymlink
      · exact Or.inr ⟨hregular, fun b hb => (hr.content hregular b hb).2⟩
    · rw [if_neg hqi] at hq
      obtain ⟨p, hp, hrest⟩ := h.made q file hq hbefore
      exact ⟨p, hmem p hp, hrest⟩

/-- An entry that links a file. -/
theorem Kept.linked (h : Kept s fs before done t) (ha : Among fs es done e)
    (hz : e.znode = some z) (hregular : z.fileType = .regular)
    (hdest : safeJoin e.rawPath = some dest) {first : Written}
    (hfirst : t.writtenObjects.lookup e.object = some first) {source i : Path}
    (hsource : safeJoin first.rawPath = some source) {t' : State}
    (hdisk : t.disk.Linked t'.disk source dest i) {r : Extracted}
    (hfiles : t'.files = t.files ++ [r]) (hwritten : t'.writtenObjects = t.writtenObjects)
    (hr : ∀ digest, Recorded r digest ↔ first.sha256 = some digest) :
    Kept s fs before (done ++ [e]) t' := by
  obtain ⟨p₀, hp₀, digest₀, first₀, hrecorded₀, hobject₀, hpath₀, hsha₀, hfirst₀, hfile₀⟩ :=
    h.written e.object first hfirst
  rw [hsource] at hfirst₀
  cases hfirst₀
  have hi : i = source := by
    have hboth := hdisk.source.symm.trans hfile₀
    cases hboth
    rfl
  subst hi
  have hnode : ∀ q, t'.disk.node q = if q = dest then some (.file i) else t.disk.node q :=
    hdisk.node
  have hkept : ∀ q file, t.disk.node q = some (.file file) →
      t'.disk.node q = some (.file file) := by
    intro q file hq
    have hne : q ≠ dest := by
      intro heq
      rw [heq, hdisk.target] at hq
      cases hq
    rw [hnode, if_neg hne]
    exact hq
  have hmem : ∀ p, p ∈ done.zip t.files → p ∈ (done ++ [e]).zip t'.files := by
    intro p hp
    rw [hfiles, h.zip_append]
    exact List.mem_append_left _ hp
  have hlast : (e, r) ∈ (done ++ [e]).zip t'.files := by
    rw [hfiles, h.zip_append]
    exact List.mem_append_right _ (List.mem_singleton_self _)
  have hnow : Recorded r digest₀ := (hr digest₀).mpr hsha₀
  refine ⟨?_, fun p hp digest hrecorded => ?_, fun q file hq hne => ?_,
    fun object w hw => ?_, fun q file hq hbefore => ?_⟩
  · rw [hfiles, List.length_append, List.length_append, h.length]
    rfl
  · rw [hfiles, h.zip_append] at hp
    rcases List.mem_append.mp hp with hp | hp
    · obtain ⟨z', dest', file, bytes, hz', htype, hdest', hcontent, hfile, hdata, hdigest⟩ :=
        h.recorded p hp digest hrecorded
      refine ⟨z', dest', file, bytes, hz', htype, hdest', hcontent, hkept _ _ hfile, ?_, hdigest⟩
      rw [hdisk.data]
      exact hdata
    · rw [List.mem_singleton.mp hp] at hrecorded ⊢
      have hdigest : digest = digest₀ := by
        have hboth := ((hr digest).mp hrecorded).symm.trans hsha₀
        exact Option.some.inj hboth
      subst hdigest
      obtain ⟨z', dest', file, bytes, hz', -, hdest', hcontent, hfile, hdata, hdigest⟩ :=
        h.recorded p₀ hp₀ digest hrecorded₀
      rw [hpath₀, hsource] at hdest'
      cases hdest'
      rw [hfile₀] at hfile
      cases hfile
      have hsame : z' = z :=
        ha.known.znode_eq (ha.done _ (List.of_mem_zip hp₀).1) ha.next hobject₀ hz' hz
      subst hsame
      rw [hobject₀] at hcontent
      refine ⟨z', dest, i, bytes, hz, hregular, hdest, hcontent, ?_, ?_, hdigest⟩
      · rw [hnode, if_pos rfl]
      · rw [hdisk.data]
        exact hdata
  · rw [hnode] at hq
    rw [hwritten]
    by_cases hqd : q = dest
    · rw [if_pos hqd] at hq
      cases hq
      exact ⟨(e, r), hlast, ⟨digest₀, hnow⟩, by rw [hqd]; exact hdest, first, hfirst, hsource⟩
    · rw [if_neg hqd] at hq
      obtain ⟨p, hp, hrest⟩ := h.named q file hq hne
      exact ⟨p, hmem p hp, hrest⟩
  · rw [hwritten] at hw
    obtain ⟨p, hp, digest, dest', hrecorded, hobject, hpath, hsha, hdest', hfile⟩ :=
      h.written object w hw
    exact ⟨p, hmem p hp, digest, dest', hrecorded, hobject, hpath, hsha, hdest', hkept _ _ hfile⟩
  · rw [hnode] at hq
    by_cases hqd : q = dest
    · exact ⟨(e, r), hlast, by rw [hqd]; exact hdest, z, hz,
        Or.inr ⟨hregular, fun b hb => ⟨digest₀, hnow⟩⟩⟩
    · rw [if_neg hqd] at hq
      obtain ⟨p, hp, hrest⟩ := h.made q file hq hbefore
      exact ⟨p, hmem p hp, hrest⟩

theorem not_recorded {r : Extracted} (h : r.sha256 = none) (digest : String) :
    ¬ Recorded r digest := by
  rintro ⟨-, -, hsha⟩
  rw [h] at hsha
  cases hsha

theorem not_recorded_error {r : Extracted} {why : String} (h : r.error = some why)
    (digest : String) : ¬ Recorded r digest := by
  rintro ⟨-, herror, -⟩
  rw [h] at herror
  cases herror

theorem preserveMode_sameFiles (z : Znode) (dest : Path) (record : Extracted)
    (disk : Disk (List UInt8)) : disk.SameFiles (preserveMode s z dest record disk) := by
  rw [preserveMode]
  split
  · exact disk.setMode_sameFiles dest _
  · exact Disk.SameFiles.refl disk

theorem Kept.extractDir (h : Kept s fs before done t) :
    Kept s fs before (done ++ [e]) (extractDir s z dest (recordOf fs e z) t) := by
  refine h.sameFiles (Disk.SameFiles.trans ?_ (preserveMode_sameFiles _ _ _ _)) rfl rfl
    (not_recorded rfl)
  exact t.disk.mkdirAll_sameFiles _ dest

theorem Kept.extractSymlink (h : Kept s fs before done t) (ha : Among fs es done e)
    (hz : e.znode = some z) (htype : z.fileType = .symlink) (hdest : safeJoin e.rawPath = some dest) :
    Kept s fs before (done ++ [e]) (extractSymlink s fs e z dest (recordOf fs e z) t) := by
  have hirregular : z.fileType ≠ .regular := by
    rw [htype]
    exact FileType.noConfusion
  rw [Files.extractSymlink]
  cases fs.symlinkTarget e.object z with
  | error err => exact h.sameFiles (Disk.SameFiles.refl _) rfl rfl (not_recorded rfl)
  | ok target =>
    cases hcreate : t.disk.create (s.refuses t.files.length) dest with
    | error err =>
      refine h.sameFiles (Disk.SameFiles.trans ?_ (preserveMode_sameFiles _ _ _ _)) rfl rfl
        (not_recorded rfl)
      rw [write, hcreate]
      exact Disk.SameFiles.refl _
    | ok made =>
      obtain ⟨i, opened⟩ := made
      let record : Extracted :=
        { recordOf fs e z with
          target := some (Ondisk.fromUtf8Lossy target)
          error := (write (s.refuses t.files.length) dest target t.disk).2 }
      have hwrites : Writes s fs e z target record :=
        ⟨Or.inl htype, fun hregular => absurd hregular hirregular,
          fun digest hrecorded => absurd hrecorded (not_recorded rfl digest)⟩
      have hdisk : t.disk.Wrote (write (s.refuses t.files.length) dest target t.disk).1 dest i
          target := by
        rw [write, hcreate]
        exact Disk.create_wrote hcreate target
      let written : State :=
        { t with
          disk := (write (s.refuses t.files.length) dest target t.disk).1
          files := t.files ++ [record] }
      have hkept : Kept s fs before (done ++ [e]) written :=
        h.wrote ha hz hdest (fun hregular => absurd hregular hirregular) hwrites hdisk rfl
          (Or.inl rfl)
      exact hkept.disk (preserveMode_sameFiles _ _ _ _) rfl rfl

/-- What a copy records, and the content that it stands for. -/
theorem copied_writes (hz : z.fileType = .regular) {obj : ObjectReader Id}
    (hobj : fs.object e.object = .ok obj) :
    Writes s fs e z (copied obj z.size s.strict).1
      (match (copied obj z.size s.strict).2 with
        | .error err => { recordOf fs e z with error := some err }
        | .ok errors =>
          { recordOf fs e z with
            sha256 := some (s.sha256 (copied obj z.size s.strict).1), errors }) := by
  have hcontent : content s fs e.object z.size =
      match (copied obj z.size s.strict).2 with
      | .error _ => none
      | .ok _ => some (copied obj z.size s.strict).1 := by
    rw [content, hobj]
  cases hcopied : (copied obj z.size s.strict).2 with
  | error err =>
    rw [hcopied] at hcontent
    refine ⟨Or.inr hz, fun _ b hb => ?_, fun digest hrecorded => ?_⟩
    · rw [hcontent] at hb
      cases hb
    · exact absurd hrecorded (not_recorded_error rfl digest)
  | ok errors =>
    rw [hcopied] at hcontent
    have hkind : (recordOf fs e z).kind = "-" := by
      show z.fileType.asChar.toString = "-"
      rw [hz]
      rfl
    refine ⟨Or.inr hz, fun _ b hb => ?_, fun digest hrecorded => ?_⟩
    · rw [hcontent] at hb
      cases hb
      exact ⟨rfl, _, hkind, rfl, rfl⟩
    · exact ⟨hz, hcontent, (Option.some.inj hrecorded.2.2).symm⟩

theorem copyFile_opened {time object : Nat} (size : Nat) {disk opened : Disk (List UInt8)} {i : Path}
    {obj : ObjectReader Id} (hobj : fs.object object = .ok obj)
    (hcreate : disk.create (s.refuses time) dest = .ok (i, opened)) :
    copyFile s fs time object size dest disk =
      (opened.store i (copied obj size s.strict).1,
        (copied obj size s.strict).2.map
          (fun errors => (s.sha256 (copied obj size s.strict).1, errors))) := by
  rw [copyFile, hobj]
  simp only [hcreate]

theorem copyFile_refused {time object : Nat} (size : Nat) {disk : Disk (List UInt8)}
    (h : (∃ err, fs.object object = .error err) ∨
      ∃ err, disk.create (s.refuses time) dest = .error err) :
    ∃ why, copyFile s fs time object size dest disk = (disk, .error why) := by
  rw [copyFile]
  cases hobj : fs.object object with
  | error err => exact ⟨err.text, rfl⟩
  | ok obj =>
    rcases h with ⟨err, hobj'⟩ | ⟨err, hcreate⟩
    · rw [hobj] at hobj'
      cases hobj'
    · simp only [hcreate]
      exact ⟨_, rfl⟩

theorem Kept.copyRegular (h : Kept s fs before done t) (ha : Among fs es done e)
    (hz : e.znode = some z) (htype : z.fileType = .regular) (hdest : safeJoin e.rawPath = some dest)
    (hnew : t.writtenObjects.lookup e.object = none) :
    Kept s fs before (done ++ [e]) (copyRegular s fs e z dest (recordOf fs e z) t.disk t) := by
  rw [Files.copyRegular]
  by_cases hrefused : (∃ err, fs.object e.object = .error err) ∨
      ∃ err, t.disk.create (s.refuses t.files.length) dest = .error err
  · obtain ⟨why, hwhy⟩ := copyFile_refused z.size hrefused
    rw [hwhy]
    exact h.sameFiles (Disk.SameFiles.refl _) rfl rfl (not_recorded_error rfl)
  · push Not at hrefused
    cases hobj : fs.object e.object with
    | error err => exact absurd hobj (hrefused.1 err)
    | ok obj =>
      cases hcreate : t.disk.create (s.refuses t.files.length) dest with
      | error err => exact absurd hcreate (hrefused.2 err)
      | ok made =>
        obtain ⟨i, opened⟩ := made
        have hwrites := copied_writes (s := s) htype hobj
        have hdisk := Disk.create_wrote hcreate (copied obj z.size s.strict).1
        rw [copyFile_opened z.size hobj hcreate]
        cases hcopied : (copied obj z.size s.strict).2 with
        | error err =>
          rw [hcopied] at hwrites
          exact h.wrote ha hz hdest (fun _ => hnew) hwrites hdisk rfl (Or.inl rfl)
        | ok errors =>
          rw [hcopied] at hwrites
          have hrecorded : Recorded
              { recordOf fs e z with
                sha256 := some (s.sha256 (copied obj z.size s.strict).1), errors }
              (s.sha256 (copied obj z.size s.strict).1) := by
            refine ⟨?_, rfl, rfl⟩
            show z.fileType.asChar.toString = "-"
            rw [htype]
            rfl
          let written : State :=
            { t with
              disk := opened.store i (copied obj z.size s.strict).1
              files := t.files ++
                [{ recordOf fs e z with
                   sha256 := some (s.sha256 (copied obj z.size s.strict).1), errors }]
              writtenObjects :=
                if z.links > 1 then
                  (e.object, { path := e.path, rawPath := e.rawPath
                               sha256 := some (s.sha256 (copied obj z.size s.strict).1) }) ::
                    t.writtenObjects
                else t.writtenObjects }
          have hkept : Kept s fs before (done ++ [e]) written := by
            refine h.wrote ha hz hdest (fun _ => hnew) hwrites hdisk rfl ?_
            by_cases hlinks : z.links > 1
            · exact Or.inr ⟨_, e.path, hrecorded, if_pos hlinks⟩
            · exact Or.inl (if_neg hlinks)
          exact hkept.disk (preserveMode_sameFiles _ _ _ _) rfl rfl

theorem Kept.linkRegular (h : Kept s fs before done t) (ha : Among fs es done e)
    (hz : e.znode = some z) (htype : z.fileType = .regular) (hdest : safeJoin e.rawPath = some dest)
    {first : Written} (hfirst : t.writtenObjects.lookup e.object = some first) :
    Kept s fs before (done ++ [e]) (linkRegular s dest first (recordOf fs e z) t.disk t) := by
  rw [Files.linkRegular]
  cases hsource : safeJoin first.rawPath with
  | none => exact h.sameFiles (Disk.SameFiles.refl _) rfl rfl (not_recorded_error rfl)
  | some source =>
    cases hlink : t.disk.hardLink (s.refuses t.files.length) source dest with
    | error err =>
      simp only [hlink]
      exact h.sameFiles (Disk.SameFiles.refl _) rfl rfl (not_recorded_error rfl)
    | ok linked =>
      simp only [hlink]
      obtain ⟨i, hdisk⟩ := Disk.hardLink_linked hlink
      refine h.linked ha hz htype hdest hfirst hsource hdisk rfl rfl (fun digest => ?_)
      refine ⟨fun hrecorded => hrecorded.2.2, fun hsha => ⟨?_, rfl, hsha⟩⟩
      show z.fileType.asChar.toString = "-"
      rw [htype]
      rfl

theorem Kept.extractRegular (h : Kept s fs before done t) (ha : Among fs es done e)
    (hz : e.znode = some z) (htype : z.fileType = .regular)
    (hdest : safeJoin e.rawPath = some dest) :
    Kept s fs before (done ++ [e]) (extractRegular s fs e z dest (recordOf fs e z) t) := by
  let disk :=
    if dest.dropLast = [] then t.disk
    else (t.disk.mkdirAll (s.refuses t.files.length) dest.dropLast).1
  have hsame : t.disk.SameFiles disk := by
    show t.disk.SameFiles (if dest.dropLast = [] then t.disk else _)
    split
    · exact Disk.SameFiles.refl t.disk
    · exact t.disk.mkdirAll_sameFiles _ _
  have hkept : Kept s fs before done { t with disk } := h.disk hsame rfl rfl
  cases hlookup : t.writtenObjects.lookup e.object with
  | some first =>
    have heq : Files.extractRegular s fs e z dest (recordOf fs e z) t =
        Files.linkRegular s dest first (recordOf fs e z) disk { t with disk } := by
      rw [Files.extractRegular, hlookup]
      rfl
    rw [heq]
    exact hkept.linkRegular ha hz htype hdest hlookup
  | none =>
    have heq : Files.extractRegular s fs e z dest (recordOf fs e z) t =
        Files.copyRegular s fs e z dest (recordOf fs e z) disk { t with disk } := by
      rw [Files.extractRegular, hlookup]
      rfl
    rw [heq]
    exact hkept.copyRegular ha hz htype hdest hlookup

theorem Kept.extractEntry (h : Kept s fs before done t) (ha : Among fs es done e) :
    Kept s fs before (done ++ [e]) (extractEntry s fs t e) := by
  rw [Files.extractEntry]
  cases hz : e.znode with
  | none => exact h.sameFiles (Disk.SameFiles.refl _) rfl rfl (not_recorded_error rfl)
  | some z =>
    cases hdest : safeJoin e.rawPath with
    | none => exact h.sameFiles (Disk.SameFiles.refl _) rfl rfl (not_recorded_error rfl)
    | some dest =>
      simp only []
      cases htype : z.fileType with
      | dir => exact h.extractDir
      | symlink => exact h.extractSymlink ha hz htype hdest
      | regular => exact h.extractRegular ha hz htype hdest
      | charDevice | blockDevice | fifo | socket | other =>
        exact h.sameFiles (Disk.SameFiles.refl _) rfl rfl (not_recorded_error rfl)

/-- What is kept over a whole run. -/
theorem kept (hknown : Known fs es) (rest : List Entry) : ∀ (done : List Entry) (t : State),
    (∀ e ∈ done ++ rest, e ∈ es) → Kept s fs before done t →
      Kept s fs before (done ++ rest) (rest.foldl (Files.extractEntry s fs) t) := by
  induction rest with
  | nil =>
    intro done t hes h
    rw [List.append_nil]
    exact h
  | cons e rest ih =>
    intro done t hes h
    have ha : Among fs es done e :=
      ⟨hknown, fun d hd => hes d (List.mem_append_left _ hd),
        hes e (List.mem_append_right _ List.mem_cons_self)⟩
    have hstep := ih (done ++ [e]) (Files.extractEntry s fs t e)
      (by rw [List.append_assoc]; exact hes) (h.extractEntry ha)
    rw [List.append_assoc] at hstep
    exact hstep

/-! ## What stays -/

variable {q : Path}

theorem write_stays {refuses : Refusals (List UInt8)} {bytes : List UInt8}
    {disk : Disk (List UInt8)} (hq : disk.node q ≠ none) :
    (write refuses dest bytes disk).1.node q ≠ none := by
  rw [write]
  cases hcreate : disk.create refuses dest with
  | error err => exact hq
  | ok made => exact (Disk.create_wrote hcreate bytes).stays (Or.inr hq)

theorem copyFile_stays {time object size : Nat} {disk : Disk (List UInt8)}
    (hq : disk.node q ≠ none) : (copyFile s fs time object size dest disk).1.node q ≠ none := by
  rw [copyFile]
  cases fs.object object with
  | error err => exact hq
  | ok obj =>
    cases hcreate : disk.create (s.refuses time) dest with
    | error err =>
      simp only []
      exact hq
    | ok made =>
      simp only []
      exact (Disk.create_wrote hcreate _).stays (Or.inr hq)

theorem copyRegular_stays {record : Extracted} {disk : Disk (List UInt8)}
    (hq : (copyFile s fs t.files.length e.object z.size dest disk).1.node q ≠ none) :
    (copyRegular s fs e z dest record disk t).disk.node q ≠ none := by
  rw [copyRegular]
  split
  · rename_i hcopy
    rw [hcopy] at hq
    exact hq
  · rename_i hcopy
    rw [hcopy] at hq
    exact (preserveMode_sameFiles _ _ _ _).stays hq

theorem linkRegular_stays {first : Written} {record : Extracted} {disk : Disk (List UInt8)}
    (hq : disk.node q ≠ none) : (linkRegular s dest first record disk t).disk.node q ≠ none := by
  rw [linkRegular]
  cases safeJoin first.rawPath with
  | none => exact hq
  | some source =>
    cases hlink : disk.hardLink (s.refuses t.files.length) source dest with
    | error err =>
      simp only [hlink]
      exact hq
    | ok linked =>
      simp only [hlink]
      obtain ⟨i, hdisk⟩ := Disk.hardLink_linked hlink
      exact hdisk.stays (Or.inr hq)

/-- A path that is there before an entry is there after it. -/
theorem extractEntry_stays (hq : t.disk.node q ≠ none) :
    (Files.extractEntry s fs t e).disk.node q ≠ none := by
  rw [Files.extractEntry]
  split
  · exact hq
  · split
    · exact hq
    · rename_i z _ dest _
      simp only []
      split
      · exact (preserveMode_sameFiles _ _ _ _).stays
          ((t.disk.mkdirAll_sameFiles _ dest).stays hq)
      · rw [Files.extractSymlink]
        split
        · exact hq
        · exact (preserveMode_sameFiles _ _ _ _).stays (write_stays hq)
      · have hparent : (if dest.dropLast = [] then t.disk
            else (t.disk.mkdirAll (s.refuses t.files.length) dest.dropLast).1).node q ≠ none := by
          split
          · exact hq
          · exact (t.disk.mkdirAll_sameFiles _ _).stays hq
        rw [Files.extractRegular]
        split
        · exact linkRegular_stays hparent
        · exact copyRegular_stays (copyFile_stays hparent)
      · exact hq

theorem foldl_stays (rest : List Entry) : ∀ t : State, t.disk.node q ≠ none →
    (rest.foldl (Files.extractEntry s fs) t).disk.node q ≠ none := by
  induction rest with
  | nil =>
    intro t hq
    exact hq
  | cons e rest ih =>
    intro t hq
    exact ih _ (extractEntry_stays hq)

/-- A file that can be copied is at the path of the manifest after its entry, unless the system
says no. -/
theorem Kept.arrives (h : Kept s fs before done t) (hat : AtManifest e z) {bytes : List UInt8}
    (hcontent : content s fs e.object z.size = some bytes)
    (hcreate : ∀ time d, s.refuses time d (.create manifestPath) = none)
    (hlink : ∀ time d source, s.refuses time d (.link source manifestPath) = none) :
    (Files.extractEntry s fs t e).disk.node manifestPath ≠ none := by
  by_cases hq : t.disk.node manifestPath = none
  · obtain ⟨hz, htype, hdest⟩ := hat
    rw [Files.extractEntry, hz]
    simp only [hdest]
    rw [htype]
    simp only []
    rw [Files.extractRegular]
    have hroot : manifestPath.dropLast = [] := rfl
    simp only [if_pos hroot]
    cases hlookup : t.writtenObjects.lookup e.object with
    | some first =>
      obtain ⟨p, -, digest, source, -, -, -, -, hsource, hnode⟩ := h.written e.object first hlookup
      obtain ⟨linked, hok⟩ : ∃ linked,
          t.disk.hardLink (s.refuses t.files.length) source manifestPath = .ok linked :=
        Disk.hardLink_root hnode hq (hlink t.files.length t.disk source)
      obtain ⟨i, hdisk⟩ := Disk.hardLink_linked hok
      simp only [Files.linkRegular, hsource, hok]
      exact hdisk.stays (Or.inl rfl)
    | none =>
      refine copyRegular_stays ?_
      cases hobj : fs.object e.object with
      | error err =>
        rw [content, hobj] at hcontent
        cases hcontent
      | ok obj =>
        obtain ⟨⟨i, opened⟩, hok⟩ : ∃ made,
            t.disk.create (s.refuses t.files.length) manifestPath = .ok made :=
          Disk.create_root hq (hcreate t.files.length t.disk)
        rw [copyFile_opened z.size hobj hok]
        exact (Disk.create_wrote hok _).stays (Or.inl rfl)
  · exact extractEntry_stays hq

end Entries

end Kept

/-! ## The run -/

section Run

variable {s : Setting} {fs : Filesystem} {render : ManifestOut → List UInt8} {dataset : String}
  {txg : Nat} {paths : List (List UInt8)} {before : Path → Option (Option (List UInt8))}
  {es : List Entry} {out : Output}

theorem entriesOf_read (root : Nat × List UInt8) : ∀ e ∈ entriesOf fs root, fs.Read e := by
  intro e he
  rw [entriesOf] at he
  split at he
  · exact Filesystem.walkFrom_read e he
  · rw [List.mem_singleton.mp he]
    exact Or.inr rfl

theorem entries_read (h : entries fs paths = .ok es) : ∀ e ∈ es, fs.Read e := by
  rw [entries] at h
  split at h
  · cases h
    exact entriesOf_read _
  · cases hroots : rootsOf fs paths with
    | error why =>
      rw [hroots] at h
      cases h
    | ok roots =>
      rw [hroots] at h
      cases h
      intro e he
      obtain ⟨root, -, he⟩ := List.mem_flatMap.mp he
      exact entriesOf_read root e he

/-- A run that completes leaves the files of its entries, and writes the manifest. -/
theorem run_ok (hes : entries fs paths = .ok es) (hdistinct : DistinctPaths es)
    (hrun : run s fs render dataset txg paths (Disk.existing before) = .ok out) :
    ∃ t i, t = es.foldl (extractEntry s fs) (start (Disk.existing before)) ∧
      Kept s fs before es t ∧ out.manifest.files = t.files ∧
      t.disk.Wrote out.disk manifestPath i (render out.manifest) := by
  let last := es.foldl (extractEntry s fs) (start (Disk.existing before))
  have hkept : Kept s fs before es last :=
    kept ⟨hdistinct, entries_read hes⟩ es [] _ (fun e he => he) Kept.start
  rw [run, hes] at hrun
  simp only [write] at hrun
  cases hcreate : last.disk.create (s.refuses es.length) manifestPath with
  | error err =>
    rw [hcreate] at hrun
    cases hrun
  | ok made =>
    obtain ⟨i, opened⟩ := made
    rw [hcreate] at hrun
    cases hrun
    exact ⟨last, i, rfl, hkept, rfl, Disk.create_wrote hcreate _⟩

/-- A file that is recorded at the path of the manifest was copied from a regular file there, or
has the name of one. -/
theorem Kept.atManifest {t : State} (h : Kept s fs before es t) {p : Entry × Extracted}
    (hp : p ∈ es.zip t.files) {digest : String} (hrecorded : Recorded p.2 digest)
    (hpath : safeJoin p.1.rawPath = some manifestPath) :
    ∃ z, AtManifest p.1 z ∧ content s fs p.1.object z.size ≠ none := by
  obtain ⟨z, dest, file, bytes, hz, htype, -, hcontent, -⟩ := h.recorded p hp digest hrecorded
  refine ⟨z, ⟨hz, htype, hpath⟩, ?_⟩
  rw [hcontent]
  exact Option.some_ne_none _

/-- No file that was recorded is written over by the manifest. -/
theorem Kept.spared {t : State} (h : Kept s fs before es t) (hno : NoManifestFile s fs es)
    {p : Entry × Extracted} (hp : p ∈ es.zip t.files) {digest : String}
    (hrecorded : Recorded p.2 digest) : safeJoin p.1.rawPath ≠ some manifestPath := by
  intro hpath
  obtain ⟨z, hat, hcontent⟩ := h.atManifest hp hrecorded hpath
  exact hcontent (hno p.1 (List.of_mem_zip hp).1 z hat)

theorem truthful_of_noManifestFile {t : State} (h : Kept s fs before es t) {i : Path}
    {disk : Disk (List UInt8)} {bytes : List UInt8} (hdisk : t.disk.Wrote disk manifestPath i bytes)
    (hno : NoManifestFile s fs es) : Truthful s disk es t.files := by
  refine ⟨h.length, fun p hp digest hrecorded => ?_⟩
  obtain ⟨z, dest, file, bytes', -, -, hdest, -, hfile, hdata, hdigest⟩ :=
    h.recorded p hp digest hrecorded
  have hne : dest ≠ manifestPath := by
    intro heq
    rw [heq] at hdest
    exact h.spared hno hp hrecorded hdest
  -- Nor is it another name of the file that the manifest is written to.
  have hapart : file ≠ i := by
    intro hfi
    subst hfi
    rcases hdisk.named with hmanifest | ⟨hnone, heq⟩
    · by_cases hfirst : file = manifestPath
      · subst hfirst
        obtain ⟨p', hp', -, -, w, hw, hwpath⟩ := h.named dest manifestPath hfile hne
        obtain ⟨q, hq, digest', first, hrecorded', -, hpath, -⟩ := h.written p'.1.object w hw
        rw [← hpath] at hwpath
        exact h.spared hno hq hrecorded' hwpath
      · obtain ⟨q, hq, ⟨digest', hrecorded'⟩, hpath, -⟩ :=
          h.named manifestPath file hmanifest (Ne.symm hfirst)
        exact h.spared hno hq hrecorded' hpath
    · subst heq
      rw [t.disk.first dest _ hfile] at hnone
      cases hnone
  refine ⟨dest, file, hdest, ?_, ?_⟩
  · rw [hdisk.node, if_neg hne]
    exact hfile
  · rw [hdisk.data, if_neg hapart, hdata]
    exact hdigest.symm

/-- A regular file at the path of the manifest that can be copied is recorded there. -/
theorem recorded_atManifest {t : State} (ht : t = es.foldl (extractEntry s fs)
      (start (Disk.existing before))) (h : Kept s fs before es t) (hknown : Known fs es)
    {manifest : List UInt8} (hu : Unhindered s fs es before manifest) {i : Path}
    {disk : Disk (List UInt8)} {bytes : List UInt8} (hdisk : t.disk.Wrote disk manifestPath i bytes)
    {e : Entry} (he : e ∈ es) {z : Znode} (hat : AtManifest e z) {b : List UInt8}
    (hcontent : content s fs e.object z.size = some b) :
    ∃ p ∈ es.zip t.files, safeJoin p.1.rawPath = some manifestPath ∧ p.1.object = e.object ∧
      ∃ digest, Recorded p.2 digest := by
  obtain ⟨done, rest, hsplit⟩ := List.append_of_mem he
  have hthere : t.disk.node manifestPath ≠ none := by
    have hdone : Kept s fs before done (done.foldl (extractEntry s fs)
        (start (Disk.existing before))) := by
      refine kept hknown done [] _ (fun d hd => ?_) Kept.start
      rw [hsplit]
      exact List.mem_append_left _ hd
    rw [ht, hsplit, List.foldl_append, List.foldl_cons]
    exact foldl_stays rest _ (hdone.arrives hat hcontent hu.create hu.link)
  have hfile : t.disk.node manifestPath = some (.file i) := by
    rcases hdisk.named with hfile | ⟨hnone, -⟩
    · exact hfile
    · exact absurd hnone hthere
  obtain ⟨p, hp, hpath, z', hz', hmade⟩ := h.made manifestPath i hfile hu.new
  have hmem := (List.of_mem_zip hp).1
  have hobject : p.1.object = e.object := hknown.object_eq hmem he hpath hat.2.2
  have hsame : z' = z := hknown.znode_eq hmem he hobject hz' hat.1
  subst hsame
  refine ⟨p, hp, hpath, hobject, ?_⟩
  rcases hmade with hsymlink | ⟨-, hrecorded⟩
  · rw [hat.2.1] at hsymlink
    cases hsymlink
  · exact hrecorded b (by rw [hobject]; exact hcontent)

theorem noManifestFile_of_truthful {t : State} (ht : t = es.foldl (extractEntry s fs)
      (start (Disk.existing before))) (h : Kept s fs before es t) (hknown : Known fs es)
    {manifest : List UInt8} (hu : Unhindered s fs es before manifest) {i : Path}
    {disk : Disk (List UInt8)} (hdisk : t.disk.Wrote disk manifestPath i manifest)
    (htrue : Truthful s disk es t.files) : NoManifestFile s fs es := by
  intro e he z hat
  by_contra hsome
  obtain ⟨b, hcontent⟩ := Option.ne_none_iff_exists'.mp hsome
  obtain ⟨p, hp, hpath, hobject, digest, hrecorded⟩ :=
    recorded_atManifest ht h hknown hu hdisk he hat hcontent
  obtain ⟨dest, file, hdest, hfile, hdigest⟩ := htrue.2 p hp digest hrecorded
  rw [hpath] at hdest
  cases hdest
  rw [hdisk.node, if_pos rfl] at hfile
  cases hfile
  rw [hdisk.data, if_pos rfl] at hdigest
  obtain ⟨z', dest, file, b', hz', -, -, hcontent', -, -, hdigest'⟩ :=
    h.recorded p hp digest hrecorded
  have hsame : z' = z := hknown.znode_eq (List.of_mem_zip hp).1 he hobject hz' hat.1
  subst hsame
  rw [hobject, hcontent] at hcontent'
  cases hcontent'
  exact hu.digest e he z' b hat hcontent (hdigest.trans hdigest')

/-- The manifest is true after a run where no regular file that can be copied is called as the
manifest is, and only there, unless such a file is in the way of the manifest, is refused or has the
digest of the manifest. -/
theorem manifest_true_iff (hes : entries fs paths = .ok es) (hdistinct : DistinctPaths es)
    (hrun : run s fs render dataset txg paths (Disk.existing before) = .ok out) :
    (NoManifestFile s fs es → Truthful s out.disk es out.manifest.files) ∧
      (Unhindered s fs es before (render out.manifest) →
        Truthful s out.disk es out.manifest.files → NoManifestFile s fs es) := by
  obtain ⟨t, i, ht, hkept, hfiles, hdisk⟩ := run_ok hes hdistinct hrun
  rw [hfiles]
  exact ⟨truthful_of_noManifestFile hkept hdisk,
    fun hu => noManifestFile_of_truthful ht hkept ⟨hdistinct, entries_read hes⟩ hu hdisk⟩

end Run

/-! ## A file of zeros, alone in its directory -/

def zeros : ObjectReader Id where
  reader :=
    { readBlock := fun _ => pure (.error (.io "no block"))
      verify := fun _ _ => pure .unsupported
      salvageDva := fun _ _ => pure (.error (.io "no block")) }
  dnode :=
    { objectType := 19, indblkshift := 17, nlevels := 1, nblkptr := 1, bonusType := 44
      checksum := 0, compress := 0, flags := 0, datablkszsec := 1, bonuslen := 0, extraSlots := 0
      maxblkid := 0, used := 0, blkptr := [], bonus := [], spill := none }
  endian := .little

def znodeOf (mode size : Nat) : Znode :=
  { mode, size, links := 1, uid := 0, gid := 0, mtime := 0, xattr := 0, symlink := none
    dxattr := none, projid := none }

/-- A dataset that holds one file, of three bytes. -/
def alone (name : String) : Filesystem where
  root := 34
  readDir _ :=
    .ok [{ name, raw := name.toUTF8.data.toList, object := 128, fileType := .regular }]
  znode object := .ok (if object = 34 then znodeOf 0o40755 1 else znodeOf 0o100644 3)
  object _ := .ok zeros
  symlinkTarget _ _ := .error (.io "no link")
  xattrs _ := []
  lookupBytes _ := .ok 34

def digestOfZeros : String := "709e80c88487a2411e1ee4dfb9f22a861492d20c4765150c0c794abd70f8147c"

/-- The digest of the manifest of a file that is called as the manifest is. -/
def digestOfManifest : String := "394cd1835976c1a4d2537da922e67d81d48dbe2f656e09aba5d817126bed4ec4"

def plain : Setting where
  output := "out"
  strict := false
  preserve := []
  refuses _ _ _ := none
  sha256 bytes := if bytes = [0, 0, 0] then digestOfZeros else digestOfManifest

/-- The manifest of such a dataset, as it is written. -/
def manifestText (name : String) : List UInt8 :=
  ("\x7b\n  \"dataset\": \"tank/fs\",\n  \"directories\": 0,\n  \"failed\": 0,\n" ++
    "  \"files\": [\n    \x7b\n      \"errors\": 0,\n      \"gid\": 0,\n" ++
    "      \"mode\": \"0644\",\n      \"mtime\": 0,\n      \"object\": 128,\n      \"path\": \"" ++
    name ++ "\",\n      \"sha256\": \"" ++ digestOfZeros ++ "\",\n      \"size\": 3,\n" ++
    "      \"type\": \"-\",\n      \"uid\": 0\n    \x7d\n  ],\n  \"hardlinks\": 0,\n" ++
    "  \"incomplete\": 0,\n  \"output\": \"out\",\n  \"txg\": 7\n\x7d\n").toUTF8.data.toList

def empty : Path → Option (Option (List UInt8)) := fun _ => none

def runOf (name : String) : Except String Output :=
  run plain (alone name) (fun _ => manifestText name) "tank/fs" 7 [] (Disk.existing empty)

def entryOf (name : String) : Entry :=
  { path := name, rawPath := name.toUTF8.data.toList, object := 128
    znode := some (znodeOf 0o100644 3), error := none }


theorem distinct_alone (name : String) : DistinctPaths [entryOf name] := by
  intro e he e' he' _
  rw [List.mem_singleton.mp he, List.mem_singleton.mp he']

theorem a_txt_ok : (entries (alone "a.txt") [] = .ok [entryOf "a.txt"]) ∧
    (runOf "a.txt").toOption.isSome = true := by
  constructor <;> decide

theorem manifest_true_of_a_txt : ∃ out, runOf "a.txt" = .ok out ∧
    Truthful plain out.disk [entryOf "a.txt"] out.manifest.files := by
  obtain ⟨hes, hok⟩ := a_txt_ok
  cases hrun : runOf "a.txt" with
  | error why =>
    rw [hrun] at hok
    cases hok
  | ok out =>
    refine ⟨out, rfl, (manifest_true_iff hes (distinct_alone "a.txt") hrun).1 ?_⟩
    intro e he z hat
    rw [List.mem_singleton.mp he] at hat
    have helsewhere : safeJoin (entryOf "a.txt").rawPath ≠ some manifestPath := by decide
    exact absurd hat.2.2 helsewhere

theorem manifest_json_ok :
    (entries (alone "manifest.json") [] = .ok [entryOf "manifest.json"]) ∧
      (runOf "manifest.json").toOption.isSome = true := by
  constructor <;> decide

theorem manifest_json_at : AtManifest (entryOf "manifest.json") (znodeOf 0o100644 3) := by
  refine ⟨rfl, ?_, ?_⟩ <;> decide

theorem content_zeros : content plain (alone "manifest.json") 128 3 = some [0, 0, 0] := by
  decide

/-- A regular file that is called `manifest.json` is recorded, and then the manifest is written
over it. -/
theorem manifest_over_file : ∃ out, runOf "manifest.json" = .ok out ∧
    entries (alone "manifest.json") [] = .ok [entryOf "manifest.json"] ∧
      DistinctPaths [entryOf "manifest.json"] ∧
      ¬ Truthful plain out.disk [entryOf "manifest.json"] out.manifest.files := by
  obtain ⟨hes, hok⟩ := manifest_json_ok
  cases hrun : runOf "manifest.json" with
  | error why =>
    rw [hrun] at hok
    cases hok
  | ok out =>
    refine ⟨out, rfl, hes, distinct_alone _, fun htrue => ?_⟩
    obtain ⟨t, i, ht, hkept, hfiles, hdisk⟩ := run_ok hes (distinct_alone _) hrun
    rw [hfiles] at htrue
    have hunhindered : Unhindered plain (alone "manifest.json") [entryOf "manifest.json"] empty
        (manifestText "manifest.json") := by
      refine ⟨rfl, fun _ _ => rfl, fun _ _ _ => rfl, fun e he z bytes hat hcontent => ?_⟩
      rw [List.mem_singleton.mp he] at hat hcontent
      cases hat.1
      rw [show (entryOf "manifest.json").object = 128 from rfl,
        show (znodeOf 0o100644 3).size = 3 from rfl, content_zeros] at hcontent
      cases hcontent
      decide
    have hno := noManifestFile_of_truthful ht hkept ⟨distinct_alone _, entries_read hes⟩
      hunhindered hdisk htrue
    have hnone : content plain (alone "manifest.json") 128 3 = none :=
      hno _ (List.mem_singleton_self _) _ manifest_json_at
    rw [content_zeros] at hnone
    cases hnone

end Files
end ZvolRescue
