import ZvolRescue.Extract.Recursive
import ZvolRescue.Lib.Files

/-!
# What a dump opens for writing

Before it writes, a dump refuses an output that is one of its inputs.  What it opens besides
the output named on the command line is not asked about: the debug log and the evidence log,
the state next to an image, and the images and the manifest of a recursive dump.  A run spares
its inputs where none of these paths names one (`dump_spares_evidence`).
-/

namespace ZvolRescue
namespace Extract

open Lib Zio

/-! ## The check -/

/-- The directory a path is in. -/
def parentOf (p : String) : String :=
  let dir := (p.toList.reverse.dropWhile (· = '/')).dropWhile (· ≠ '/')
  let trimmed := dir.dropWhile (· = '/')
  if dir = [] then "." else if trimmed = [] then "/" else String.ofList trimmed.reverse

def statErrorText : StatError → String
  | .notFound => "No such file or directory (os error 2)"
  | .other what => what

variable {φ : Type} (fs : FileSystem φ)

/-- Compare the output, where it is there, and its directory with the inputs that are there. -/
def refuseAny (output : String) (out : Option FileMeta) (parent : FileMeta) (s : φ) :
    List String → Except String Unit
  | [] => .ok ()
  | input :: inputs =>
    match fs.stat input s with
    | .error _ => refuseAny output out parent s inputs
    | .ok m =>
      if out.map FileMeta.id = some m.id then
        .error s!"output {output} is the same file as input {input}"
      else if m.blockDevice ∧ parent.dev = m.rdev then
        .error s!"output directory {parentOf output} is on input device {input}"
      else refuseAny output out parent s inputs

/-- Refuse an output that is one of the inputs, or lies on a device that is. -/
def refuseIfEvidence (output : String) (inputs : List String) (s : φ) : Except String Unit :=
  match fs.stat output s with
  | .error (.other what) => .error what
  | .error .notFound =>
    match fs.stat (parentOf output) s with
    | .error e => .error (statErrorText e)
    | .ok parent => refuseAny fs output none parent s inputs
  | .ok m =>
    match fs.stat (parentOf output) s with
    | .error e => .error (statErrorText e)
    | .ok parent => refuseAny fs output (some m) parent s inputs

variable {fs}

theorem refuseAny_ok {output : String} {m parent : FileMeta} {s : φ} {inputs : List String}
    (h : refuseAny fs output (some m) parent s inputs = .ok ()) :
    ∀ input ∈ inputs, ¬ fs.Names s input m.id := by
  induction inputs with
  | nil =>
    intro input hinput
    cases hinput
  | cons first rest ih =>
    rw [refuseAny] at h
    have hrest : refuseAny fs output (some m) parent s rest = .ok () ∧
        ¬ fs.Names s first m.id := by
      cases hstat : fs.stat first s with
      | error e =>
        rw [hstat] at h
        refine ⟨h, ?_⟩
        rintro ⟨m', hm', -⟩
        rw [hstat] at hm'
        cases hm'
      | ok m' =>
        simp only [hstat] at h
        by_cases hsame : (some m).map FileMeta.id = some m'.id
        · rw [if_pos hsame] at h
          cases h
        · rw [if_neg hsame] at h
          split at h
          · cases h
          · refine ⟨h, ?_⟩
            rintro ⟨m'', hm'', hid⟩
            rw [hstat] at hm''
            cases hm''
            exact hsame (congrArg some hid.symm)
    intro input hinput
    rcases List.mem_cons.mp hinput with rfl | hinput
    · exact hrest.2
    · exact ih hrest.1 input hinput

/-- An output that passes is no file that an input names. -/
theorem refuseIfEvidence_ok {output : String} {inputs : List String} {s : φ}
    (h : refuseIfEvidence fs output inputs s = .ok ()) {input : String} (hinput : input ∈ inputs)
    {i : FileId} (hi : fs.Names s input i) : ¬ fs.Names s output i := by
  rintro ⟨m, hm, rfl⟩
  rw [refuseIfEvidence, hm] at h
  simp only at h
  cases hparent : fs.stat (parentOf output) s with
  | error e =>
    rw [hparent] at h
    cases h
  | ok parent =>
    rw [hparent] at h
    exact refuseAny_ok h input hinput hi

/-! ## What the run does to files -/

def statePath (output : String) : String := output ++ ".resume.json"

/-- The options of every command that open files. -/
structure Global where
  debugLog : Option String
  evidenceLog : Option String

structure Request where
  dataset : String
  output : String
  recursive : Bool

/-- An extraction, by where it starts, how often its state is written on the way, and its
report. -/
structure Extraction where
  startBlock : Nat
  checkpoints : Nat
  result : Except ReadError Report

/-- What a dataset comes to. -/
inductive Course where
  /-- Its keys are not there. -/
  | locked (code : Nat)
  /-- Its data object cannot be opened, or its size is not known. -/
  | unopened (code : Nat)
  | extracted (e : Extraction)

/-- What reading the members comes to, step by step. -/
structure Reading where
  members : Except Nat Unit
  pool : Except Nat Unit
  /-- A verified uberblock was found. -/
  uberblocks : Bool
  tree : Except Nat (List Dataset)
  course : Nat → Course
  anyFailed : Bool
  mediumStop : Bool

section Program

variable (fs)

def writeStates (path : String) : Nat → StateM (World φ) Unit
  | 0 => pure ()
  | n + 1 => do
    let _ ← fs.openFile .create path
    writeStates path n

/-- The files of one volume: its image, and the state next to it. -/
def dumpFiles (output : String) (e : Extraction) : StateM (World φ) (Except Nat Report) := do
  let opened ← fs.openFile (if e.startBlock > 0 then .existing else .create) output
  if opened = false then pure (.error Exit.usage)
  else do
    writeStates fs (statePath output) e.checkpoints
    match e.result with
    | .error _ => pure (.error Exit.unrecoverable)
    | .ok report =>
      if report.aborted ∨ report.interruptedAt.isSome then do
        let _ ← fs.openFile .create (statePath output)
        pure (.ok report)
      else do
        fs.removeFile (statePath output)
        pure (.ok report)

/-- The volumes in order; the status they come to, or the one the run ends early with. -/
def dumpEach (recursive : Bool) (course : Nat → Course) :
    List (Dataset × String) → (i code : Nat) → StateM (World φ) (Except Nat Nat)
  | [], _, code => pure (.ok code)
  | (ds, output) :: rest, i, code =>
    if recursive ∧ ds.isVolume = false then dumpEach recursive course rest (i + 1) code
    else match course i with
    | .locked c =>
      if recursive then dumpEach recursive course rest (i + 1) (max code c) else pure (.error c)
    | .unopened c =>
      if recursive then dumpEach recursive course rest (i + 1) (max code c)
      else pure (.ok (max code c))
    | .extracted e => do
      match ← dumpFiles fs output e with
      | .error c =>
        if recursive then dumpEach recursive course rest (i + 1) (max code c)
        else pure (.ok (max code c))
      | .ok report =>
        let code := Exit.afterExtraction code report.aborted
          (report.blocksZeroed + report.blocksSalvaged)
        if report.interruptedAt.isSome then pure (.ok (max code Exit.interrupted))
        else dumpEach recursive course rest (i + 1) code

/-- The end of every run: the evidence record, when one was asked for. -/
def endRun (g : Global) (r : Reading) (code : Nat) : StateM (World φ) Nat :=
  let code := if r.mediumStop then Exit.medium else code
  match g.evidenceLog with
  | none => pure code
  | some log => do
    let opened ← fs.openFile .append log
    pure (if opened then code else Exit.usage)

def finish (g : Global) (r : Reading) (code : Nat) : StateM (World φ) Nat :=
  endRun fs g r (if code = 0 ∧ r.anyFailed then Exit.evidence else code)

/-- What is dumped, and where each volume goes. -/
def Request.targets (req : Request) (tree : List Dataset) : List (Dataset × String) :=
  if req.recursive then Extract.targets tree req.dataset req.output
  else (tree.filter (fun d => d.name == req.dataset)).head?.toList.map (fun d => (d, req.output))

def manifestPath (dir : String) : String := joinPath dir "manifest.json"

/-- The directory of a recursive dump. -/
def makeOutputDir (req : Request) : StateM (World φ) Bool :=
  if req.recursive then fs.makeDir req.output else pure true

/-- The manifest of a recursive dump. -/
def writeManifest (req : Request) : StateM (World φ) Bool :=
  if req.recursive then fs.openFile .create (manifestPath req.output) else pure true

def openDebugLog (g : Global) : StateM (World φ) Bool :=
  match g.debugLog with
  | some log => fs.openFile .create log
  | none => pure true

/-- The run from the first byte of output on. -/
def dumpTree (g : Global) (req : Request) (r : Reading) (tree : List Dataset) :
    StateM (World φ) Nat := do
  let ready ← makeOutputDir fs req
  if ready = false then endRun fs g r Exit.usage
  else do
    match ← dumpEach fs req.recursive r.course (req.targets tree) 0 0 with
    | .error c => endRun fs g r c
    | .ok code => do
      let written ← writeManifest fs req
      finish fs g r (if written then code else max code Exit.usage)

/-- The run from the check on. -/
def dumpMembers (g : Global) (req : Request) (members : List String) (r : Reading) :
    StateM (World φ) Nat := do
  let w ← get
  match refuseIfEvidence fs req.output members w.state with
  | .error _ => endRun fs g r Exit.refused
  | .ok () =>
    match r.pool with
    | .error c => endRun fs g r c
    | .ok () =>
      if r.uberblocks = false then endRun fs g r Exit.unrecoverable
      else match r.tree with
      | .error c => finish fs g r c
      | .ok tree => dumpTree fs g req r tree

/-- A whole run: the debug log comes first. -/
def dumpRun (g : Global) (req : Request) (members : List String) (r : Reading) :
    StateM (World φ) Nat := do
  let logged ← openDebugLog fs g
  if logged = false then pure Exit.usage
  else match r.members with
  | .error c => endRun fs g r c
  | .ok () => dumpMembers fs g req members r

end Program

/-! ## What the run spares -/

/-- The files that the members name when a run begins. -/
def Evidence (fs : FileSystem φ) (members : List String) (s₀ : φ) (i : FileId) : Prop :=
  ∃ p ∈ members, fs.Names s₀ p i

/-- The paths that a request opens besides the output it names. -/
def Request.besides (req : Request) (tree : List Dataset) : List String :=
  if req.recursive then
    (volumePaths (Extract.targets tree req.dataset req.output)).flatMap (fun p => [p, statePath p]) ++
      [manifestPath req.output]
  else [statePath req.output]

/-- The paths that a run may open and that the check does not ask about. -/
def unasked (g : Global) (req : Request) (r : Reading) : List String :=
  g.debugLog.toList ++ g.evidenceLog.toList ++
    match r.tree with
    | .ok tree => req.besides tree
    | .error _ => []

section Spares

variable {used : FileId → Prop} {s₀ : φ}

theorem writeStates_spares (h : Lawful fs used) {path : String} (hp : Clear fs used s₀ path) :
    ∀ n, Keeps (Spares fs used s₀) (writeStates fs path n) (fun _ => True) := by
  intro n
  induction n with
  | zero => exact Keeps.pure True.intro
  | succ n ih => exact Keeps.bind (h.openFile_spares .create hp) (fun _ _ => ih)

theorem dumpFiles_spares (h : Lawful fs used) {output : String} (hp : Clear fs used s₀ output)
    (hs : Clear fs used s₀ (statePath output)) (e : Extraction) :
    Keeps (Spares fs used s₀) (dumpFiles fs output e) (fun _ => True) := by
  rw [dumpFiles]
  apply Keeps.bind (h.openFile_spares _ hp)
  intro opened _
  split
  · exact Keeps.pure True.intro
  · apply Keeps.bind (writeStates_spares h hs e.checkpoints)
    intro _ _
    cases e.result with
    | error _ => exact Keeps.pure True.intro
    | ok report =>
      simp only
      split
      · exact Keeps.bind (h.openFile_spares .create hs) (fun _ _ => Keeps.pure True.intro)
      · exact Keeps.bind (h.removeFile_spares _) (fun _ _ => Keeps.pure True.intro)

theorem dumpEach_spares (h : Lawful fs used) (recursive : Bool) (course : Nat → Course)
    (l : List (Dataset × String))
    (hl : ∀ t ∈ l, (recursive = true ∧ t.1.isVolume = false) ∨
      (Clear fs used s₀ t.2 ∧ Clear fs used s₀ (statePath t.2))) :
    ∀ i code, Keeps (Spares fs used s₀) (dumpEach fs recursive course l i code)
      (fun _ => True) := by
  induction l with
  | nil =>
    intro i code
    exact Keeps.pure True.intro
  | cons t rest ih =>
    intro i code
    obtain ⟨ds, output⟩ := t
    have ih := ih (fun t ht => hl t (List.mem_cons_of_mem _ ht))
    have hgoes : ∀ (code : Nat) (early : Except Nat Nat), Keeps (Spares fs used s₀)
        (if recursive then dumpEach fs recursive course rest (i + 1) code else pure early)
        (fun _ => True) := by
      intro code early
      cases recursive with
      | true => exact ih (i + 1) code
      | false => exact Keeps.pure True.intro
    rw [dumpEach]
    by_cases hskip : recursive = true ∧ ds.isVolume = false
    · rw [if_pos hskip]
      exact ih (i + 1) code
    · rw [if_neg hskip]
      obtain ⟨hp, hs⟩ := (hl (ds, output) List.mem_cons_self).resolve_left hskip
      cases course i with
      | locked c => exact hgoes _ _
      | unopened c => exact hgoes _ _
      | extracted e =>
        apply Keeps.bind (dumpFiles_spares h hp hs e)
        intro result _
        cases result with
        | error c => exact hgoes _ _
        | ok report =>
          simp only
          split
          · exact Keeps.pure True.intro
          · exact ih (i + 1) _

theorem endRun_spares (h : Lawful fs used) {g : Global}
    (hlog : ∀ log, g.evidenceLog = some log → Clear fs used s₀ log) (r : Reading) (code : Nat) :
    Keeps (Spares fs used s₀) (endRun fs g r code) (fun _ => True) := by
  rw [endRun]
  cases hg : g.evidenceLog with
  | none => exact Keeps.pure True.intro
  | some log =>
    exact Keeps.bind (h.openFile_spares .append (hlog log hg)) (fun _ _ => Keeps.pure True.intro)

theorem dumpTree_spares (h : Lawful fs used) {g : Global} {req : Request} {tree : List Dataset}
    (hlog : ∀ log, g.evidenceLog = some log → Clear fs used s₀ log)
    (hbeside : ∀ p ∈ req.besides tree, Clear fs used s₀ p)
    (houtput : req.recursive = false → Clear fs used s₀ req.output) (r : Reading) :
    Keeps (Spares fs used s₀) (dumpTree fs g req r tree) (fun _ => True) := by
  have hend := endRun_spares h hlog r
  have hfinish : ∀ code, Keeps (Spares fs used s₀) (finish fs g r code) (fun _ => True) :=
    fun code => hend _
  have htargets : ∀ t ∈ req.targets tree, (req.recursive = true ∧ t.1.isVolume = false) ∨
      (Clear fs used s₀ t.2 ∧ Clear fs used s₀ (statePath t.2)) := by
    intro t ht
    cases hrec : req.recursive with
    | true =>
      rw [Request.targets, if_pos hrec] at ht
      rw [Request.besides, if_pos hrec] at hbeside
      cases hvolume : t.1.isVolume with
      | false => exact Or.inl ⟨rfl, rfl⟩
      | true =>
        have hmem : t.2 ∈ volumePaths (Extract.targets tree req.dataset req.output) :=
          List.mem_map.mpr ⟨t, List.mem_filter.mpr ⟨ht, hvolume⟩, rfl⟩
        refine Or.inr ⟨hbeside _ (List.mem_append_left _ (List.mem_flatMap.mpr ⟨_, hmem, ?_⟩)),
          hbeside _ (List.mem_append_left _ (List.mem_flatMap.mpr ⟨_, hmem, ?_⟩))⟩
        · exact List.mem_cons_self
        · exact List.mem_cons_of_mem _ List.mem_cons_self
    | false =>
      rw [Request.targets, if_neg (by simp [hrec])] at ht
      rw [Request.besides, if_neg (by simp [hrec])] at hbeside
      obtain ⟨ds, -, rfl⟩ := List.mem_map.mp ht
      exact Or.inr ⟨houtput hrec, hbeside _ List.mem_cons_self⟩
  have hdirs : Keeps (Spares fs used s₀) (makeOutputDir fs req) (fun _ => True) := by
    rw [makeOutputDir]
    split
    · exact h.makeDir_spares _
    · exact Keeps.pure True.intro
  rw [dumpTree]
  apply Keeps.bind hdirs
  intro ready _
  split
  · exact hend _
  · apply Keeps.bind (dumpEach_spares h req.recursive r.course _ htargets 0 0)
    intro result _
    cases result with
    | error c => exact hend c
    | ok code =>
      have hmanifest : Keeps (Spares fs used s₀) (writeManifest fs req) (fun _ => True) := by
        rw [writeManifest]
        by_cases hrec : req.recursive = true
        · rw [Request.besides, if_pos hrec] at hbeside
          rw [if_pos hrec]
          exact h.openFile_spares .create
            (hbeside _ (List.mem_append_right _ List.mem_cons_self))
        · rw [if_neg hrec]
          exact Keeps.pure True.intro
      exact Keeps.bind hmanifest (fun _ _ => hfinish _)

/-- From the check on: an output that passes names no input. -/
theorem dumpMembers_spares {members : List String} (h : Lawful fs (Evidence fs members s₀))
    {g : Global} {req : Request} {r : Reading}
    (hclear : ∀ p ∈ unasked g req r, Clear fs (Evidence fs members s₀) s₀ p) {w : World φ}
    (hw : Untouched fs (Evidence fs members s₀) s₀ w) :
    Spares fs (Evidence fs members s₀) s₀ (dumpMembers fs g req members r w).2 := by
  have hlog : ∀ log, g.evidenceLog = some log → Clear fs (Evidence fs members s₀) s₀ log := by
    intro log hg
    refine hclear log (List.mem_append_left _ (List.mem_append_right _ ?_))
    simp [hg]
  have hend : ∀ code, Spares fs (Evidence fs members s₀) s₀ (endRun fs g r code w).2 :=
    fun code => (endRun_spares h hlog r code w hw.spares).2
  show Spares fs _ s₀ ((match refuseIfEvidence fs req.output members w.state with
    | .error _ => endRun fs g r Exit.refused
    | .ok () => _) w).2
  cases hcheck : refuseIfEvidence fs req.output members w.state with
  | error what => exact hend _
  | ok _ =>
    simp only
    cases r.pool with
    | error c => exact hend c
    | ok _ =>
      simp only
      split
      · exact hend _
      · cases htree : r.tree with
        | error c => exact hend _
        | ok tree =>
          have hbeside : ∀ p ∈ req.besides tree, Clear fs (Evidence fs members s₀) s₀ p := by
            intro p hp
            refine hclear p (List.mem_append_right _ ?_)
            rw [htree]
            exact hp
          have houtput : Clear fs (Evidence fs members s₀) s₀ req.output := by
            intro i hi hnames
            obtain ⟨input, hinput, hi'⟩ := hi
            exact refuseIfEvidence_ok hcheck hinput
              ((hw.names input i ⟨input, hinput, hi'⟩).mpr hi')
              ((hw.names req.output i ⟨input, hinput, hi'⟩).mpr hnames)
          exact (dumpTree_spares h hlog hbeside (fun _ => houtput) r w hw.spares).2

/-- A run opens none of its inputs for writing, if no path that it may open besides the output
it was given names one of them when it begins. -/
theorem dump_spares_evidence {members : List String} (h : Lawful fs (Evidence fs members s₀))
    (g : Global) (req : Request) (r : Reading)
    (hclear : ∀ p ∈ unasked g req r, Clear fs (Evidence fs members s₀) s₀ p) :
    ∀ i ∈ (dumpRun fs g req members r { state := s₀, opened := [] }).2.opened,
      ¬ Evidence fs members s₀ i := by
  have hlog : ∀ log, g.evidenceLog = some log → Clear fs (Evidence fs members s₀) s₀ log := by
    intro log hg
    refine hclear log (List.mem_append_left _ (List.mem_append_right _ ?_))
    simp [hg]
  have hdebug : Keeps (Untouched fs (Evidence fs members s₀) s₀) (openDebugLog fs g)
      (fun _ => True) := by
    rw [openDebugLog]
    cases hg : g.debugLog with
    | none => exact Keeps.pure True.intro
    | some log =>
      refine h.openFile_untouched .create (hclear log (List.mem_append_left _ ?_))
      simp [hg]
  have hw := (hdebug _ (untouched_start fs (Evidence fs members s₀) s₀)).2
  suffices Spares fs (Evidence fs members s₀) s₀
      (dumpRun fs g req members r { state := s₀, opened := [] }).2 from this.opened
  rw [dumpRun, bind_run]
  split
  · exact hw.spares
  · cases r.members with
    | error c => exact (endRun_spares h hlog r c _ hw.spares).2
    | ok _ => exact dumpMembers_spares h hclear hw

end Spares

/-! ## A log that is a member -/

/-- A member and nothing else, in a directory. -/
def oneMember : { t : NameTable // 2 ≤ t.next } :=
  ⟨{ names := [("disk.img", 0), (".", 1)], next := 2 }, Nat.le_refl 2⟩

def plainRequest : Request := { dataset := "tank/vm", output := "out.img", recursive := false }

/-- A run that finds its volume, and cannot read its size. -/
def sizeless : Reading :=
  { members := .ok (), pool := .ok (), uberblocks := true
    tree := .ok [volumeNamed "tank/vm"]
    course := fun _ => .unopened Exit.unrecoverable
    anyFailed := false, mediumStop := false }

/-- A run whose extraction stops at a block, so that it leaves a state. -/
def stopping : Reading :=
  { sizeless with
    course := fun _ => .extracted
      { startBlock := 0
        checkpoints := 1
        result := .ok { (Run.start 1024 512 2 0 (Digests.new ⟨false, false⟩) ()).report with
          aborted := true } } }

theorem oneMember_lawful :
    Lawful (tableFiles 2) (Evidence (tableFiles 2) ["disk.img"] oneMember) := by
  refine (tableFiles_lawful 2).mono ?_
  rintro i ⟨p, hp, hi⟩
  rw [List.mem_singleton.mp hp, tableFiles_names] at hi
  obtain ⟨k, hk, rfl⟩ := hi
  cases hk
  decide

/-- The image, its state twice and the log are new files. -/
theorem dump_spares_evidence_logged :
    (dumpRun (tableFiles 2) ⟨none, some "log.jsonl"⟩ plainRequest ["disk.img"] stopping
        { state := oneMember, opened := [] }).2.opened = [(0, 2), (0, 3), (0, 3), (0, 4)] ∧
      ∀ i ∈ (dumpRun (tableFiles 2) ⟨none, some "log.jsonl"⟩ plainRequest ["disk.img"] stopping
        { state := oneMember, opened := [] }).2.opened,
        ¬ Evidence (tableFiles 2) ["disk.img"] oneMember i := by
  refine ⟨by decide, dump_spares_evidence oneMember_lawful ⟨none, some "log.jsonl"⟩
    plainRequest stopping ?_⟩
  rintro p hp i - hi
  obtain ⟨k, hk, -⟩ := tableFiles_names.mp hi
  have hpaths : unasked ⟨none, some "log.jsonl"⟩ plainRequest stopping =
      ["log.jsonl", "out.img.resume.json"] := by decide
  rw [hpaths] at hp
  rcases List.mem_cons.mp hp with rfl | hp
  · cases hk
  · rw [List.mem_singleton.mp hp] at hk
    cases hk

/-- The evidence log is asked for at the path of a member, and the record goes into it. -/
theorem evidence_log_is_member :
    ¬ ∀ (φ : Type) (fs : FileSystem φ) (members : List String) (s₀ : φ) (g : Global)
        (req : Request) (r : Reading), Lawful fs (Evidence fs members s₀) →
      ∀ i ∈ (dumpRun fs g req members r { state := s₀, opened := [] }).2.opened,
        ¬ Evidence fs members s₀ i := by
  intro h
  have hopened : (dumpRun (tableFiles 2) ⟨none, some "disk.img"⟩ plainRequest ["disk.img"] sizeless
      { state := oneMember, opened := [] }).2.opened = [(0, 0)] := by decide
  refine h _ (tableFiles 2) ["disk.img"] oneMember ⟨none, some "disk.img"⟩ plainRequest sizeless
    oneMember_lawful (0, 0) ?_ ⟨"disk.img", List.mem_cons_self, tableFiles_names.mpr ⟨0, rfl, rfl⟩⟩
  rw [hopened]
  exact List.mem_cons_self

end Extract
end ZvolRescue
