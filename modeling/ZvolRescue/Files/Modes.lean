import ZvolRescue.Files.Beside

/-!
# Permissions that are preserved

The permissions of an entry are set right after it is written, so that a directory may be closed
before what lies in it is written.  Preserving them changes nothing else exactly where nothing is
written into such a directory, and the manifest not over a file that may not be written
(`modes_only_iff`).
-/

namespace ZvolRescue
namespace Files

open Lib Zpl

/-- The state after these entries were extracted into an empty directory. -/
def extracted (s : Setting) (fs : Filesystem) (es : List Entry) : State :=
  es.foldl (extractEntry s fs) (start (Disk.existing (fun _ => none)))

/-- Each path that was written has the permissions that its record names. -/
def Moded (es : List Entry) (files : List Extracted) (d : Disk (List UInt8)) : Prop :=
  ∀ p ∈ es.zip files, p.2.error = none →
    ∃ mode, d.modeAt (components p.1.rawPath) = some mode ∧ p.2.mode = octal mode

/-- The same is written and recorded, and the permissions are preserved. -/
structure ModesOnly (es : List Entry) (plain kept : State) : Prop where
  disk : plain.disk.Alike kept.disk
  files : kept.files = plain.files
  modes : Moded es kept.files kept.disk

/-- Both runs fail alike, or leave the same, the one with the permissions preserved. -/
def SameEnd (es : List Entry) : (plain kept : Except String Output) → Prop
  | .ok plain, .ok kept =>
    plain.disk.Alike kept.disk ∧ kept.manifest = plain.manifest ∧
      Moded es kept.manifest.files kept.disk
  | .error plain, .error kept => kept = plain
  | _, _ => False

/-- No directory that its owner may not write or search has anything that is written in it, and no
file is called as the manifest is that its owner may not write. -/
structure Spared (s : Setting) (fs : Filesystem) (es : List Entry) : Prop where
  dirs : ∀ d ∈ es, Shut d → ∀ e ∈ es, ∀ q, Wants s fs e q → q.dropLast ≠ components d.rawPath
  manifest : ∀ e ∈ es, ∀ z, e.znode = some z → components e.rawPath = manifestPath →
    Complete s fs e z → writable z.permissions = true

section Walk

variable {s : Setting} {fs : Filesystem} {es done : List Entry} {e : Entry} {t t' : State}

/-- The entries of a walk, as far as an extraction depends on their order. -/
structure Walk (fs : Filesystem) (es : List Entry) : Prop where
  known : Known fs es
  plan : Planned es
  order : es.Pairwise Follows

theorem Walk.of_start (htree : fs.IsTree) {raw : List UInt8} {object : Nat}
    (h : Start fs raw object) : Walk fs (entriesOf fs (object, raw)) :=
  ⟨⟨entriesOf_distinct htree h, entriesOf_read (object, raw)⟩, entriesOf_planned htree h,
    entriesOf_order htree h⟩

/-- A run up to some entry, beside one where nothing is refused. -/
theorem Walk.beside (h : Walk fs es) (hrefuses : ∀ time, Unprivileged (s.refuses time))
    {before after : List Entry} (hes : es = before ++ after)
    (hallowed : "mode" ∈ s.preserve → ∀ d ∈ es, Shut d → ∀ e ∈ before, ∀ q, Wants s fs e q →
      q.dropLast ≠ components d.rawPath) :
    Beside s fs before (extracted s.free fs before) (extracted s fs before) :=
  beside_from hrefuses h.known h.plan h.order before [] after _ _ hes Beside.start hallowed

/-- Where nothing is preserved nothing is closed. -/
theorem Walk.beside_plain (h : Walk fs es) (hrefuses : ∀ time, Unprivileged (s.refuses time))
    (hplain : "mode" ∉ s.preserve) :
    Beside s fs es (extracted s.free fs es) (extracted s fs es) :=
  h.beside hrefuses (List.append_nil es).symm (fun hmem => absurd hmem hplain)

/-- The entry at a first name has the object of every other name. -/
theorem Beside.first_object (h : Beside s fs es t t') (hwalk : Walk fs es) (he : e ∈ es) {i : Path}
    (hz : e.znode ≠ none) (hnode : t'.disk.node (components e.rawPath) = some (.file i)) :
    ∃ e₀ ∈ es, safeJoin e₀.rawPath = some i ∧ e₀.object = e.object := by
  obtain ⟨z, hz⟩ := Option.ne_none_iff_exists'.mp hz
  have hsafe := hwalk.plan.safe e he z hz
  rw [h.like.disk.node] at hnode
  by_cases hi : components e.rawPath = i
  · rw [hi] at hsafe
    exact ⟨e, he, hsafe, rfl⟩
  · obtain ⟨p, hp, -, hpath, w, hw, hwpath⟩ := h.kept.named _ i hnode hi
    obtain ⟨p', hp', -, -, -, hobject, hpath', -⟩ := h.kept.written _ w hw
    refine ⟨p'.1, (List.of_mem_zip hp').1, by rw [hpath', hwpath], ?_⟩
    rw [hobject]
    exact hwalk.known.object_eq (List.of_mem_zip hp).1 he hpath hsafe

/-- The manifest may be written. -/
theorem Beside.writes_manifest (h : Beside s fs es t t') (hwalk : Walk fs es)
    (hmanifest : "mode" ∈ s.preserve → ∀ e ∈ es, ∀ z, e.znode = some z →
      components e.rawPath = manifestPath → Complete s fs e z → writable z.permissions = true)
    (i : Path) (hnode : t'.disk.node manifestPath = some (.file i)) :
    t'.disk.readOnly i = false := by
  by_contra hread
  rw [Bool.not_eq_false, Disk.readOnly, Option.any_eq_true] at hread
  obtain ⟨mode, hmode, hread⟩ := hread
  obtain ⟨hpreserve, e', he', z', hz', hperm, hwhole, hinode⟩ := h.set i mode hmode
  obtain ⟨e, he, z, hz, hfile, hpath⟩ := h.within.files _ i hnode
  have hnode' : t'.disk.node (components e'.rawPath) = some (.file i) := by
    rw [Disk.inode] at hinode
    split at hinode
    · cases hinode
    · rename_i hdir
      have hfirst := t'.disk.first _ i hnode
      rw [Option.some.inj hinode, hfirst] at hdir
      cases hdir
    · rename_i j hj
      rw [hj, Option.some.inj hinode]
  have htype' : z'.fileType ≠ .dir := by
    intro htype
    refine h.within.no_file hwalk.plan (fun e he => he) he' ((makes_dir hz' htype).mpr ?_) i hnode'
    exact ⟨safeJoin_ne_nil (hwalk.plan.safe e' he' z' hz'), List.prefix_refl _⟩
  -- Both are names of one object.
  have hobject : e.object = e'.object := by
    obtain ⟨e₀, he₀, hsafe, hsame⟩ := h.first_object hwalk he (by simp [hz]) (by rw [hpath, hnode])
    obtain ⟨e₁, he₁, hsafe', hsame'⟩ := h.first_object hwalk he' (by simp [hz']) hnode'
    rw [← hsame, ← hsame']
    exact hwalk.known.object_eq he₀ he₁ hsafe hsafe'
  have hsame : z = z' := hwalk.known.znode_eq he he' hobject hz hz'
  have hwhole' : Complete s fs e z := by
    rw [Complete, hobject, hsame]
    exact hwhole.resolve_left htype'
  have hwritable := hmanifest hpreserve e he z hz hpath hwhole'
  rw [hsame, hperm] at hwritable
  rw [hwritable] at hread
  cases hread

/-! ## Where nothing is spared -/

/-- What an entry is the first to make is not there before. -/
theorem Turn.wanted_missing (hturn : Turn fs es done e) {d : Disk (List UInt8)}
    (h : Within done d) {q : Path} (hq : Wants s fs e q)
    (hfirst : ∀ e' ∈ done, ¬ Wants s fs e' q) : d.node q = none := by
  cases hnode : d.node q with
  | none => rfl
  | some n =>
    cases n with
    | dir =>
      obtain ⟨e', he', hmakes⟩ := h.dirs q hnode
      exact absurd (Or.inl hmakes) (hfirst e' he')
    | file i =>
      rcases hq with hmakes | ⟨rfl, z, hz, -⟩
      · exact absurd hnode (h.no_file hturn.plan hturn.among.done hturn.among.next hmakes i)
      · exact absurd hnode (hturn.no_file h (by simp [hz]) i)

theorem Kept.exists_record {before : Path → Option (Option (List UInt8))}
    (h : Kept s fs before done t) (he : e ∈ done) : ∃ r, (e, r) ∈ done.zip t.files := by
  have hfst : (done.zip t.files).map Prod.fst = done := List.map_fst_zip h.length.ge
  rw [← hfst] at he
  obtain ⟨p, hp, rfl⟩ := List.mem_map.mp he
  exact ⟨p.2, hp⟩

/-- An entry before that is a directory closes it, if its owner may not enter it. -/
theorem Beside.closed (h : Beside s fs done t t') (hwalk : Walk fs es) (hdone : ∀ e ∈ done, e ∈ es)
    (hpreserve : "mode" ∈ s.preserve) {d : Entry} (hd : d ∈ done) (hshut : Shut d) :
    t'.disk.node (components d.rawPath) = some .dir ∧
      t'.disk.closed (components d.rawPath) = true := by
  obtain ⟨z, hz, htype, hclosed⟩ := hshut
  obtain ⟨r, hr⟩ := h.kept.exists_record hd
  have herror := h.clean _ hr z hz (Or.inl htype)
  rw [← h.like.files] at hr
  obtain ⟨z', hz', -, hat⟩ := h.modes hpreserve _ hr herror
  rw [hz] at hz'
  cases hz'
  have hmakes : Makes d (components d.rawPath) := by
    refine (makes_dir hz htype).mpr ⟨?_, List.prefix_refl _⟩
    exact safeJoin_ne_nil (hwalk.plan.safe d (hdone d hd) z hz)
  have hdir : t'.disk.node (components d.rawPath) = some .dir := by
    cases hnode : t'.disk.node (components d.rawPath) with
    | none => simp [Disk.modeAt, Disk.inode, hnode] at hat
    | some n =>
      cases n with
      | dir => rfl
      | file i =>
        exact absurd hnode (h.within.no_file hwalk.plan hdone (hdone d hd) hmakes i)
  refine ⟨hdir, Disk.closed_iff.mpr ⟨hdir, z.permissions, ?_, hclosed⟩⟩
  simpa [Disk.modeAt, Disk.inode, hdir] using hat

/-- What an entry is to make in a directory that is there is made where nothing is refused. -/
theorem Beside.wanted (h : Beside s fs done t t') (hturn : Turn fs es done e) {q : Path}
    (hq : Wants s fs e q) (hdir : t.disk.node q.dropLast = some .dir) :
    (Files.extractEntry s.free fs t e).disk.node q ≠ none := by
  rcases hq with hmakes | ⟨rfl, z, hz, hfile, hbytes⟩
  · obtain ⟨-, z, hz, htype⟩ := id hmakes
    rcases htype with ⟨htype, -⟩ | ⟨htype, -⟩
    · rw [(h.free_dir hturn hz htype).1 q hmakes]
      exact Option.some_ne_none _
    · exact (h.free_regular hturn hz htype).1 q hmakes
  · rcases hfile with htype | htype
    · exact (h.free_regular hturn hz htype).2.1 hbytes
    · exact (h.free_symlink hturn hz htype hbytes (Or.inr hdir)).1

/-- What is missing in a closed directory stays so. -/
theorem lost_from (hrefuses : ∀ time, Unprivileged (s.refuses time)) (hwalk : Walk fs es)
    {d : Entry} {q : Path} (hpath : q.dropLast = components d.rawPath) :
    ∀ (rest done : List Entry) (t : State), es = done ++ rest → d ∈ done → t.disk.Lost q →
      (rest.foldl (extractEntry s fs) t).disk.Lost q := by
  intro rest
  induction rest with
  | nil =>
    intro done t _ _ h
    exact h
  | cons e rest ih =>
    intro done t hes hd h
    have hturn := turn_of_order hwalk.known hwalk.plan hwalk.order hes
    refine ih (done ++ [e]) _ (by rw [hes]; simp) (List.mem_append_left _ hd) ?_
    obtain ⟨made, r, hmade, -, hends⟩ : ∃ made r, made.Lost q ∧
        (extractEntry s fs t e).files = t.files ++ [r] ∧
          Ends s fs t e made r (extractEntry s fs t e).disk := extractEntry_ends
      (fun _ p _ hlost => hlost.mkdirAll (hrefuses t.files.length) p)
      (fun _ _ _ bytes _ _ _ hlost hok =>
        (hlost.create (hrefuses t.files.length) hok).store _ bytes) h
    generalize (extractEntry s fs t e).disk = after at hends ⊢
    cases hends with
    | left _ => exact hmade
    | set z hz _ _ _ _ _ =>
      refine hmade.setMode (fun heq => ?_) _
      have hnone := (hturn.follows d hd (by rw [heq, hpath])).2
      rw [hz] at hnone
      cases hnone
    | linked z first source linked _ _ _ _ _ hlink =>
      exact hmade.hardLink (hrefuses t.files.length) hlink

theorem exists_first {α : Type} {p : α → Prop} {l : List α} {a : α} (ha : a ∈ l) (hp : p a) :
    ∃ before b after, l = before ++ b :: after ∧ p b ∧ ∀ x ∈ before, ¬ p x := by
  classical
  cases hfind : l.find? (fun x => decide (p x)) with
  | none => exact absurd hp (by simpa using List.find?_eq_none.mp hfind a ha)
  | some b =>
    obtain ⟨hb, before, after, hl, hbefore⟩ := List.find?_eq_some_iff_append.mp hfind
    exact ⟨before, b, after, hl, by simpa using hb, fun x hx => by simpa using hbefore x hx⟩

/-- Where the same is written, nothing is written into a closed directory. -/
theorem ModesOnly.spares (hwalk : Walk fs es) (hrefuses : ∀ time, Unprivileged (s.refuses time))
    (hplain : "mode" ∉ s.preserve)
    (h : ModesOnly es (extracted s fs es) (extracted s.withModes fs es)) :
    ∀ d ∈ es, Shut d → ∀ e ∈ es, ∀ q, Wants s fs e q → q.dropLast ≠ components d.rawPath := by
  intro d₁ hd₁ hshut₁ e₁ he₁ q₁ hq₁ hpath₁
  -- The first entry that makes something in a closed directory.
  obtain ⟨before, e, after, hes, ⟨d, hd, hshut, q, hq, hpath⟩, hfirst⟩ :=
    exists_first (p := fun e => ∃ d ∈ es, Shut d ∧ ∃ q, Wants s fs e q ∧
      q.dropLast = components d.rawPath) he₁ ⟨d₁, hd₁, hshut₁, q₁, hq₁, hpath₁⟩
  have hturn := turn_of_order hwalk.known hwalk.plan hwalk.order hes
  have hbefore := mem_of_wants hwalk.plan hwalk.order hes hd hq hpath
  have hbeside : Beside s.withModes fs before (extracted s.free fs before)
      (extracted s.withModes fs before) :=
    hwalk.beside (s := s.withModes) hrefuses hes (fun _ d' hd' hshut' e' he' q' hq' hpath' =>
      hfirst e' he' ⟨d', hd', hshut', q', hq', hpath'⟩)
  obtain ⟨hdir, hclosed⟩ :=
    hbeside.closed hwalk hturn.among.done List.mem_cons_self hbefore hshut
  rw [← hpath] at hdir hclosed
  have hmissing : (extracted s.withModes fs before).disk.node q = none :=
    hturn.wanted_missing hbeside.within hq
      (fun e' he' hq' => hfirst e' he' ⟨d, hd, hshut, q, hq', hpath⟩)
  have hlost : (extracted s.withModes fs es).disk.Lost q := by
    rw [extracted, hes, List.foldl_append]
    exact lost_from (s := s.withModes) hrefuses hwalk hpath (e :: after) before _ hes hbefore
      ⟨hmissing, hclosed⟩
  -- Where nothing is refused it is made, and stays.
  have hmade : (extracted s.free fs es).disk.node q ≠ none := by
    rw [extracted, hes, List.foldl_append, List.foldl_cons]
    refine foldl_stays after _ (hbeside.wanted hturn hq ?_)
    rw [← hbeside.like.disk.node]
    exact hdir
  rw [← (hwalk.beside_plain hrefuses hplain).like.disk.node, ← h.disk.node] at hmade
  exact hmade hlost.missing

end Walk

/-! ## The manifest -/

section Manifest

variable {s : Setting} {fs : Filesystem} {es : List Entry} {t t' : State}
  {render : ManifestOut → List UInt8} {dataset : String} {txg : Nat} {paths : List (List UInt8)}

theorem run_eq (hentries : entries fs paths = .ok es) :
    run s fs render dataset txg paths (Disk.existing (fun _ => none)) =
      match write (s.refuses es.length) manifestPath
          (render (manifestOf s dataset txg (extracted s fs es))) (extracted s fs es).disk with
      | (_, some e) => .error s!"{shown s.output manifestPath}: {e}"
      | (disk, none) => .ok { disk, manifest := manifestOf s dataset txg (extracted s fs es) } := by
  rw [run, hentries]
  rfl

theorem Beside.manifest_eq (h : Beside s fs es t t') :
    manifestOf s dataset txg t' = manifestOf s.free dataset txg t := by
  rw [manifestOf, manifestOf, h.like.files, h.like.directories]
  rfl

/-- The manifest is written as where nothing is refused. -/
theorem Beside.write_alike (h : Beside s fs es t t') (hwalk : Walk fs es)
    (hrefuses : ∀ time, Unprivileged (s.refuses time))
    (hmanifest : "mode" ∈ s.preserve → ∀ e ∈ es, ∀ z, e.znode = some z →
      components e.rawPath = manifestPath → Complete s fs e z → writable z.permissions = true)
    (bytes : List UInt8) :
    (write freely manifestPath bytes t.disk).1.Alike
        (write (s.refuses es.length) manifestPath bytes t'.disk).1 ∧
      (write (s.refuses es.length) manifestPath bytes t'.disk).2 =
        (write freely manifestPath bytes t.disk).2 := by
  refine Files.write_alike (hrefuses es.length) h.like.disk (fun _ => ?_)
    (h.writes_manifest hwalk hmanifest) bytes
  by_contra hclosed
  obtain ⟨hdir, -⟩ := Disk.closed_iff.mp (Bool.not_eq_false _ ▸ hclosed)
  obtain ⟨e, -, hne, -⟩ := h.within.dirs _ hdir
  exact hne rfl

theorem write_ok {refuses : Refusals (List UInt8)} {d d' : Disk (List UInt8)} {dest : Path}
    {bytes : List UInt8} (h : write refuses dest bytes d = (d', none)) : d.Grows d' := by
  rw [write] at h
  cases hcreate : d.create refuses dest with
  | error err =>
    rw [hcreate] at h
    cases h
  | ok made =>
    rw [hcreate] at h
    cases h
    exact (Disk.create_grows hcreate).store _ _

/-- Where everything is spared, both runs end alike. -/
theorem sameEnd_of_spared (hentries : entries fs paths = .ok es) (hwalk : Walk fs es)
    (hrefuses : ∀ time, Unprivileged (s.refuses time)) (hplain : "mode" ∉ s.preserve)
    (h : Spared s fs es) :
    ModesOnly es (extracted s fs es) (extracted s.withModes fs es) ∧
      SameEnd es (run s fs render dataset txg paths (Disk.existing (fun _ => none)))
        (run s.withModes fs render dataset txg paths (Disk.existing (fun _ => none))) := by
  have hp := hwalk.beside_plain hrefuses hplain
  have hk : Beside s.withModes fs es (extracted s.free fs es) (extracted s.withModes fs es) :=
    hwalk.beside (s := s.withModes) hrefuses (List.append_nil es).symm (fun _ => h.dirs)
  have hmodes : Moded es (extracted s.withModes fs es).files (extracted s.withModes fs es).disk := by
    intro p hmem herror
    obtain ⟨z, -, hmode, hat⟩ := hk.modes List.mem_cons_self p hmem herror
    exact ⟨z.permissions, hat, hmode⟩
  have halike : (extracted s fs es).disk.Alike (extracted s.withModes fs es).disk :=
    ⟨hk.like.disk.node.trans hp.like.disk.node.symm, hk.like.disk.data.trans hp.like.disk.data.symm⟩
  have hfiles : (extracted s.withModes fs es).files = (extracted s fs es).files :=
    hk.like.files.trans hp.like.files.symm
  refine ⟨⟨halike, hfiles, hmodes⟩, ?_⟩
  have hmanifest : manifestOf s.withModes dataset txg (extracted s.withModes fs es) =
      manifestOf s dataset txg (extracted s fs es) :=
    hk.manifest_eq.trans hp.manifest_eq.symm
  rw [run_eq hentries, run_eq hentries, hmanifest]
  obtain ⟨hpdisk, hperror⟩ := hp.write_alike hwalk hrefuses (fun hmem => absurd hmem hplain)
    (render (manifestOf s dataset txg (extracted s fs es)))
  obtain ⟨hkdisk, hkerror⟩ := hk.write_alike hwalk hrefuses (fun _ => h.manifest)
    (render (manifestOf s dataset txg (extracted s fs es)))
  rw [← hperror] at hkerror
  cases hpw : write (s.refuses es.length) manifestPath
      (render (manifestOf s dataset txg (extracted s fs es))) (extracted s fs es).disk with
  | mk pdisk perror =>
    cases hkw : write (s.withModes.refuses es.length) manifestPath
        (render (manifestOf s dataset txg (extracted s fs es)))
        (extracted s.withModes fs es).disk with
    | mk kdisk kerror =>
      rw [hpw] at hpdisk hkerror
      rw [hkw] at hkdisk hkerror
      have hsame : kerror = perror := hkerror
      subst hsame
      cases kerror with
      | some e => rfl
      | none =>
        refine ⟨⟨hkdisk.node.trans hpdisk.node.symm, hkdisk.data.trans hpdisk.data.symm⟩, rfl,
          fun p hmem herror => ?_⟩
        have hmem : p ∈ es.zip (extracted s fs es).files := hmem
        rw [← hfiles] at hmem
        obtain ⟨mode, hat, hmode⟩ := hmodes p hmem herror
        refine ⟨mode, ?_, hmode⟩
        show kdisk.modeAt (components p.1.rawPath) = some mode
        rw [(write_ok hkw).modeAt_eq ?_, hat]
        intro hnone
        simp [Disk.modeAt, Disk.inode, hnone] at hat

/-- Where both runs end alike, no file is called as the manifest is that may not be written. -/
theorem SameEnd.spares (hentries : entries fs paths = .ok es) (hwalk : Walk fs es)
    (hrefuses : ∀ time, Unprivileged (s.refuses time)) (hplain : "mode" ∉ s.preserve)
    (hdirs : ∀ d ∈ es, Shut d → ∀ e ∈ es, ∀ q, Wants s fs e q → q.dropLast ≠ components d.rawPath)
    (h : SameEnd es (run s fs render dataset txg paths (Disk.existing (fun _ => none)))
      (run s.withModes fs render dataset txg paths (Disk.existing (fun _ => none)))) :
    ∀ e ∈ es, ∀ z, e.znode = some z → components e.rawPath = manifestPath →
      Complete s fs e z → writable z.permissions = true := by
  intro e he z hz hpath hwhole
  by_contra hread
  have hread : writable z.permissions = false := Bool.not_eq_true _ ▸ hread
  have hp := hwalk.beside_plain hrefuses hplain
  have hk : Beside s.withModes fs es (extracted s.free fs es) (extracted s.withModes fs es) :=
    hwalk.beside (s := s.withModes) hrefuses (List.append_nil es).symm (fun _ => hdirs)
  have htype : z.fileType ≠ .dir := by
    intro htype
    simp [Complete, htype] at hwhole
  -- The file is there, and may not be written.
  obtain ⟨r, hr⟩ := hk.kept.exists_record he
  have herror := hk.clean _ hr z hz (Or.inr ⟨hwhole, by rw [hpath]; rfl⟩)
  rw [← hk.like.files] at hr
  obtain ⟨z', hz', -, hat⟩ := hk.modes List.mem_cons_self _ hr herror
  rw [hz] at hz'
  cases hz'
  rw [hpath] at hat
  obtain ⟨i, hnode⟩ : ∃ i, (extracted s.withModes fs es).disk.node manifestPath = some (.file i) := by
    cases hnode : (extracted s.withModes fs es).disk.node manifestPath with
    | none => simp [Disk.modeAt, Disk.inode, hnode] at hat
    | some n =>
      cases n with
      | dir =>
        rw [← hpath] at hnode
        exact absurd hnode (hk.within.no_dir hwalk.plan (fun e he => he) he hz htype)
      | file i => exact ⟨i, rfl⟩
  have hmode : (extracted s.withModes fs es).disk.mode i = some z.permissions := by
    simpa [Disk.modeAt, Disk.inode, hnode] using hat
  have hreadOnly : (extracted s.withModes fs es).disk.readOnly i = true := by
    simp [Disk.readOnly, hmode, hread]
  -- So one run writes the manifest, and the other does not.
  have hblocked : ∀ d : Disk (List UInt8), d.blocked manifestPath = none := fun _ => rfl
  have hkept : ∀ bytes, ∃ why, (write (s.withModes.refuses es.length) manifestPath bytes
      (extracted s.withModes fs es).disk).2 = some why := by
    intro bytes
    have hforbid : s.refuses es.length (extracted s.withModes fs es).disk (.create manifestPath) ≠
        none := by
      intro hnone
      have hallowed := (hrefuses es.length _ _).mp hnone
      simp [Disk.forbids, hnode, hreadOnly] at hallowed
    obtain ⟨what, hwhat⟩ := Option.ne_none_iff_exists'.mp hforbid
    have hwhat : s.withModes.refuses es.length (extracted s.withModes fs es).disk
        (.create manifestPath) = some what := hwhat
    rw [write, Disk.create_of_file (hblocked _) hnode, hwhat]
    exact ⟨_, rfl⟩
  have hplainly : ∀ bytes, (write (s.refuses es.length) manifestPath bytes
      (extracted s fs es).disk).2 = none := by
    intro bytes
    have hnode' : (extracted s fs es).disk.node manifestPath = some (.file i) := by
      rw [hp.like.disk.node, ← hk.like.disk.node, hnode]
    have hallowed : s.refuses es.length (extracted s fs es).disk (.create manifestPath) = none := by
      refine (hrefuses es.length _ _).mpr ?_
      rw [Disk.forbids, hnode']
      exact hp.writes_manifest hwalk (fun hmem => absurd hmem hplain) i hnode'
    rw [write, Disk.create_of_file (hblocked _) hnode', hallowed]
  rw [run_eq hentries, run_eq hentries] at h
  obtain ⟨why, hwhy⟩ := hkept (render (manifestOf s.withModes dataset txg
    (extracted s.withModes fs es)))
  have hnone := hplainly (render (manifestOf s dataset txg (extracted s fs es)))
  generalize write (s.withModes.refuses es.length) manifestPath _ _ = kept at h hwhy
  generalize write (s.refuses es.length) manifestPath _ _ = plain at h hnone
  obtain ⟨kdisk, kerror⟩ := kept
  obtain ⟨pdisk, perror⟩ := plain
  simp only at hwhy hnone
  rw [hwhy, hnone] at h
  exact h

/-- Preserving the permissions of a tree changes nothing else, for a user who is refused what the
permissions forbid, if and only if nothing is written in a directory that its owner may not write
or search, and no file that its owner may not write is called as the manifest is. -/
theorem modes_only_iff (s : Setting) (hplain : "mode" ∉ s.preserve)
    (hrefuses : ∀ time, Unprivileged (s.refuses time)) (fs : Filesystem) (htree : fs.IsTree)
    (raw : List UInt8) (object : Nat) (hstart : Start fs raw object)
    (hentries : entries fs paths = .ok (entriesOf fs (object, raw)))
    (render : ManifestOut → List UInt8) (dataset : String) (txg : Nat) :
    ModesOnly (entriesOf fs (object, raw)) (extracted s fs (entriesOf fs (object, raw)))
        (extracted s.withModes fs (entriesOf fs (object, raw))) ∧
      SameEnd (entriesOf fs (object, raw))
        (run s fs render dataset txg paths (Disk.existing (fun _ => none)))
        (run s.withModes fs render dataset txg paths (Disk.existing (fun _ => none))) ↔
    Spared s fs (entriesOf fs (object, raw)) := by
  have hwalk := Walk.of_start htree hstart
  constructor
  · rintro ⟨hmodes, hends⟩
    have hdirs := hmodes.spares hwalk hrefuses hplain
    exact ⟨hdirs, SameEnd.spares hentries hwalk hrefuses hplain hdirs hends⟩
  · exact sameEnd_of_spared hentries hwalk hrefuses hplain

end Manifest

/-! ## A file alone in its directory -/

def nameF : DirEntry := { name := "f", raw := [102], object := 2, fileType := .regular }

/-- A tree of one directory with this mode, which holds one file of three bytes. -/
def nested (mode : Nat) : Filesystem where
  root := 34
  readDir object := .ok (if object = 34 then [nameA] else if object = 1 then [nameF] else [])
  znode object :=
    .ok (if object = 2 then znodeOf 0o100644 3 else if object = 1 then znodeOf mode 1
      else znodeOf 0o40755 1)
  object _ := .ok zeros
  symlinkTarget _ _ := .error (.io "no link")
  xattrs _ := []
  lookupBytes _ := .ok 34

theorem nested_isTree {mode : Nat} (hdir : (nested mode).isDir nameA = true)
    (hfile : (nested mode).isDir nameF = false) : (nested mode).IsTree :=
  Filesystem.isTree_of_pair (d := nameA) (c := nameF) rfl rfl hdir hfile
    ⟨by decide, by decide, by decide, by decide, by decide⟩
    ⟨by decide, by decide, by decide, by decide, by decide⟩ (show 1 ≠ 34 by decide)
    (fun z h => by
      obtain rfl : znodeOf 0o40755 1 = z := Except.ok.inj h
      decide)

theorem nested_start (mode : Nat) : Start (nested mode) [] (nested mode).root :=
  ⟨by decide, Or.inl ⟨rfl, rfl⟩⟩

/-- A user who is refused what the permissions forbid. -/
def user : Setting := { plain with refuses := fun _ => denied }

/-- No directory of the tree is closed. -/
theorem nested_spared : Spared user (nested 0o40755) (entriesOf (nested 0o40755) (34, [])) := by
  have hopen : ∀ e ∈ entriesOf (nested 0o40755) (34, []), e.znode.all (fun z =>
      decide (z.fileType ≠ .dir) || enterable z.permissions) = true := by decide
  have hnames : ∀ e ∈ entriesOf (nested 0o40755) (34, []),
      components e.rawPath ≠ manifestPath := by decide
  constructor
  · rintro d hd ⟨z, hz, hdir, hshut⟩
    have hboth := hopen d hd
    rw [hz, Option.all_some, hshut, hdir] at hboth
    cases hboth
  · intro e he z hz hpath
    exact absurd hpath (hnames e he)

theorem modes_only_iff_nested :
    ModesOnly (entriesOf (nested 0o40755) (34, []))
        (extracted user (nested 0o40755) (entriesOf (nested 0o40755) (34, [])))
        (extracted user.withModes (nested 0o40755) (entriesOf (nested 0o40755) (34, []))) ∧
      SameEnd (entriesOf (nested 0o40755) (34, []))
        (run user (nested 0o40755) (fun _ => []) "tank/fs" 7 [] (Disk.existing (fun _ => none)))
        (run user.withModes (nested 0o40755) (fun _ => []) "tank/fs" 7 []
          (Disk.existing (fun _ => none))) :=
  (modes_only_iff user (by decide) (fun _ => denied_unprivileged) (nested 0o40755)
    (nested_isTree (by decide) (by decide)) [] 34 (nested_start _) rfl (fun _ => []) "tank/fs" 7).mpr nested_spared

/-- Which entries of the tree are recorded with an error. -/
def nestedFailed (s : Setting) : List Bool :=
  (extracted s (nested 0o40555) (entriesOf (nested 0o40555) (34, []))).files.map
    (fun f => f.error.isSome)

/-- The file is written as long as its directory keeps the permissions it was made with, and
lost where those of the tree are set first. -/
theorem file_lost :
    ¬ ∀ (s : Setting), "mode" ∉ s.preserve → (∀ time, Unprivileged (s.refuses time)) →
      ∀ (fs : Filesystem), fs.IsTree → ∀ (raw : List UInt8) (object : Nat), Start fs raw object →
      ∀ (paths : List (List UInt8)), entries fs paths = .ok (entriesOf fs (object, raw)) →
      ∀ (render : ManifestOut → List UInt8) (dataset : String) (txg : Nat),
        ModesOnly (entriesOf fs (object, raw)) (extracted s fs (entriesOf fs (object, raw)))
            (extracted s.withModes fs (entriesOf fs (object, raw))) ∧
          SameEnd (entriesOf fs (object, raw))
            (run s fs render dataset txg paths (Disk.existing (fun _ => none)))
            (run s.withModes fs render dataset txg paths (Disk.existing (fun _ => none))) := by
  intro h
  have hsame := (h user (by decide) (fun _ => denied_unprivileged) (nested 0o40555)
    (nested_isTree (by decide) (by decide)) [] 34 (nested_start _) [] rfl (fun _ => []) "tank/fs" 7).1.files
  have hfailed : nestedFailed user.withModes = nestedFailed user :=
    congrArg (List.map (fun f : Extracted => f.error.isSome)) hsame
  have hplain : nestedFailed user = [false, false] := by decide
  have hkept : nestedFailed user.withModes = [false, true] := by decide
  rw [hplain, hkept] at hfailed
  cases hfailed

end Files
end ZvolRescue
