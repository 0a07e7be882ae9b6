import Mathlib.Data.List.Dedup
import ZvolRescue.Report.Record

/-!
# Building a report

`assemble` makes one report of the records of several logs.  Everything in it is from the
records; the documents of the tools are read without trusting a field to be there.
-/

namespace ZvolRescue
namespace Report

/-! ## What a report says -/

structure LogRef where
  path : String
  records : Nat
  sha256 : String
  deriving DecidableEq, Repr

structure ToolRef where
  tool : String
  version : String
  deriving DecidableEq, Repr

/-- A piece of evidence, and the tools that read it. -/
structure Evidence where
  file : FileRef
  readBy : List String
  deriving DecidableEq, Repr

structure Command where
  ts : Nat
  tool : String
  version : String
  host : Option String
  argv : List String
  status : Nat
  deriving DecidableEq, Repr

/-- What a scan said about a pool. -/
structure Pool where
  name : String
  guid : String
  state : Option String
  /-- Oldest and newest TXG any device of the scan verified. -/
  txgWindow : Option (Nat × Nat)
  readable : Bool
  deriving DecidableEq, Repr

/-- One dataset that was extracted. -/
structure Extraction where
  dataset : String
  txg : Nat
  output : String
  size : Nat
  sha256 : Option String
  sha1 : Option String
  md5 : Option String
  errors : Nat
  aborted : Bool
  deriving DecidableEq, Repr

/-- What a reader should not have to notice. -/
inductive Warning where
  | hashedDifferently (path first second : String)
  | sizesDiffer (path : String) (first second : Nat)
  | device (path : String)
  | exited (tool : String) (status : Nat) (argv : List String)
  | stopped (dataset output : String)
  | zeroed (dataset : String) (errors : Nat)
  | noHash (dataset output : String)
  | outside (dataset : String) (txg oldest newest : Nat)
  | mixed (tool version other : String)
  deriving DecidableEq, Repr

def Warning.text : Warning → String
  | .hashedDifferently path a b =>
    s!"{path}: hashed differently by two runs ({a} then {b}): the evidence changed between them"
  | .sizesDiffer path a b => s!"{path}: {a} bytes in one record and {b} in another"
  | .device path =>
    s!"{path}: read as a device, not as an image: this recovery was done against the evidence " ++
      "itself"
  | .exited tool status argv => s!"{tool} exited {status} : " ++ " ".intercalate argv
  | .stopped dataset output =>
    s!"{dataset}: the extraction stopped early; {output} is not the whole volume"
  | .zeroed dataset errors =>
    s!"{dataset}: {errors} block(s) could not be read and were written as zeros"
  | .noHash dataset output => s!"{dataset}: no hash was recorded for {output}"
  | .outside dataset txg a b =>
    s!"{dataset}: extracted at txg {txg} , outside the window {a}–{b} the scan recorded"
  | .mixed tool version other =>
    s!"{tool} appears as {version} and {other}: the report mixes runs of different builds"

set_option linter.dupNamespace false in
structure Report where
  reportVersion : Nat
  case : Option String
  examiner : Option String
  notes : List String
  logs : List LogRef
  tools : List ToolRef
  hosts : List String
  evidence : List Evidence
  commands : List Command
  pools : List Pool
  outputs : List FileRef
  extractions : List Extraction
  warnings : List String

def reportVersion : Nat := 1

/-! ## Maps by path -/

/-- What a component of a path is ordered by: the root, a dot, two dots, a name. -/
def componentKey (part : List Char) : List Nat :=
  let rank :=
    if part = [] then 0 else if part = ['.'] then 1 else if part = ['.', '.'] then 2 else 3
  rank :: part.map Char.toNat

/-- The components of a path; a dot counts only in front. -/
def pathKey (path : String) : List (List Nat) :=
  match path.toList.splitOn '/' with
  | [] => []
  | first :: rest =>
    if path = "" then []
    else componentKey first :: (rest.filter (fun part => part ≠ [] ∧ part ≠ ['.'])).map componentKey

/-- `BTreeMap::insert`. -/
def insertPath {α : Type*} (path : String) (a : α) : List (String × α) → List (String × α)
  | [] => [(path, a)]
  | (p, b) :: entries =>
    if pathKey p = pathKey path then (p, a) :: entries
    else if pathKey path < pathKey p then (path, a) :: (p, b) :: entries
    else (p, b) :: insertPath path a entries

def getPath {α : Type*} (path : String) (entries : List (String × α)) : Option α :=
  (entries.find? (fun entry => pathKey entry.1 = pathKey path)).map Prod.snd

/-! ## The documents of the tools -/

/-- The span of what the devices of a scan verified. -/
def windowOf (result : Json) : Option (Nat × Nat) :=
  match result.arrayAt "devices" with
  | none => none
  | some devs =>
    match (devs.filterMap (Json.u64At "oldest_txg")).min?,
      (devs.filterMap (Json.u64At "newest_txg")).max? with
    | some oldest, some newest => some (oldest, newest)
    | _, _ => none

/-- The pools a `scan` record described. -/
def poolsOf (result : Json) : List Pool :=
  match result.arrayAt "pools" with
  | none => []
  | some list =>
    list.filterMap (fun p => do
      let name ← p.strAt "name"
      some
        { name
          guid := (p.strAt "guid").getD ""
          state := p.strAt "state"
          txgWindow := windowOf result
          readable := (p.boolAt "readable").getD false })

/-- The extractions a `dump` record described. -/
def extractionsOf (result : Json) : List Extraction :=
  match result.arrayAt "volumes" with
  | none => []
  | some list =>
    list.filterMap (fun v => do
      let dataset ← v.strAt "dataset"
      let output ← v.strAt "output"
      some
        { dataset
          txg := (v.u64At "txg").getD 0
          output
          size := (v.u64At "volsize").getD 0
          sha256 := v.strAt "sha256"
          sha1 := v.strAt "sha1"
          md5 := v.strAt "md5"
          errors := (v.u64At "blocks_zeroed").getD 0
          aborted := (v.boolAt "aborted").getD false })

/-! ## Going through the records -/

/-- What the records read so far told. -/
structure Collected where
  evidence : List (String × Evidence)
  tools : List ToolRef
  hosts : List String
  commands : List Command
  pools : List Pool
  extractions : List Extraction
  outputs : List (String × FileRef)
  warnings : List Warning

def Collected.empty : Collected where
  evidence := []
  tools := []
  hosts := []
  commands := []
  pools := []
  extractions := []
  outputs := []
  warnings := []

/-- `push` unless it is there. -/
def pushNew {α : Type*} [DecidableEq α] (l : List α) (a : α) : List α :=
  if a ∈ l then l else l ++ [a]

/-- What is said when a file is read again: a hash recorded once is kept. -/
def compareInput (e : Evidence) (i : FileRef) : List Warning :=
  (match e.file.sha256, i.sha256 with
    | some a, some b => if a ≠ b then [.hashedDifferently i.path a b] else []
    | _, _ => []) ++
  (if e.file.size ≠ i.size then [.sizesDiffer i.path e.file.size i.size] else [])

def readInput (tool : String) (s : Collected) (i : FileRef) : Collected :=
  let e := (getPath i.path s.evidence).getD
    { file := { i with sha1 := none, md5 := none }, readBy := [] }
  let warnings := s.warnings ++ compareInput e i
  let file := if e.file.sha256 = none then { e.file with sha256 := i.sha256 } else e.file
  { s with
    evidence := insertPath i.path { file, readBy := pushNew e.readBy tool } s.evidence
    warnings := if i.kind = some .device then pushNew warnings (.device i.path) else warnings }

/-- A pool is kept as it was described first. -/
def addPool (pools : List Pool) (p : Pool) : List Pool :=
  if pools.any (fun q => q.guid = p.guid ∧ q.name = p.name) then pools else pools ++ [p]

def readRecord (s : Collected) (r : Record) : Collected :=
  let s := { s with
    tools := pushNew s.tools { tool := r.tool, version := r.version }
    hosts := match r.host with
      | some h => pushNew s.hosts h
      | none => s.hosts
    commands := s.commands ++ [
      { ts := r.ts
        tool := r.tool
        version := r.version
        host := r.host
        argv := r.argv
        status := r.status }] }
  let s := r.inputs.foldl (readInput r.tool) s
  { s with
    -- A file written again keeps the last hash.
    outputs := r.outputs.foldl (fun outputs o => insertPath o.path o outputs) s.outputs
    pools := (poolsOf r.result).foldl addPool s.pools
    extractions := s.extractions ++ extractionsOf r.result
    warnings :=
      if r.status ≠ 0 then s.warnings ++ [.exited r.tool r.status r.argv] else s.warnings }

/-- Before or at the same place: by time, then by log, then by line. -/
def before (a b : Nat × Nat × Nat × Record) : Bool :=
  a.1 < b.1 ∨ a.1 = b.1 ∧ (a.2.1 < b.2.1 ∨ a.2.1 = b.2.1 ∧ a.2.2.1 ≤ b.2.2.1)

/-- The records of all logs in chronological order. -/
def chronological (records : List (LogRef × List Record)) : List Record :=
  let flat := records.zipIdx.flatMap (fun log =>
    log.1.2.zipIdx.map (fun line => (line.1.ts, log.2, line.2, line.1)))
  (flat.mergeSort before).map (fun entry => entry.2.2.2)

def collect (records : List (LogRef × List Record)) : Collected :=
  (chronological records).foldl readRecord .empty

/-! ## Warnings -/

/-- The first window in the list of pools. -/
def firstWindow (pools : List Pool) : Option (Nat × Nat) := pools.findSome? Pool.txgWindow

def outsideWindow (window : Nat × Nat) (txg : Nat) : Bool := txg < window.1 ∨ window.2 < txg

def extractionWarnings (pools : List Pool) (e : Extraction) : List Warning :=
  (if e.aborted then [.stopped e.dataset e.output] else []) ++
  (if 0 < e.errors then [.zeroed e.dataset e.errors] else []) ++
  (if e.sha256 = none then [.noHash e.dataset e.output] else []) ++
  (match firstWindow pools with
    | some w => if outsideWindow w e.txg then [.outside e.dataset e.txg w.1 w.2] else []
    | none => [])

/-- Tools that appear in two versions. -/
def mixedWarnings (tools : List ToolRef) : List Warning :=
  tools.filterMap (fun t =>
    (tools.find? (fun o => o.tool = t.tool ∧ o.version ≠ t.version)).map
      (fun other => .mixed t.tool t.version other.version))

/-- Everything the report warns of. -/
def notices (records : List (LogRef × List Record)) : List Warning :=
  let s := collect records
  s.warnings ++ s.extractions.flatMap (extractionWarnings s.pools) ++ mixedWarnings s.tools

structure Options where
  case : Option String
  examiner : Option String
  notes : List String

def assemble (records : List (LogRef × List Record)) (opts : Options) : Report :=
  let s := collect records
  { reportVersion := reportVersion
    case := opts.case
    examiner := opts.examiner
    notes := opts.notes
    logs := records.map Prod.fst
    tools := s.tools
    hosts := s.hosts
    evidence := s.evidence.map Prod.snd
    commands := s.commands
    pools := s.pools
    outputs := s.outputs.map Prod.snd
    extractions := s.extractions
    -- Sorted, so that equal ones are side by side.
    warnings := (((notices records).map Warning.text).mergeSort (fun a b => a ≤ b)).dedup }

/-! ## What the records contribute -/

/-- A warning about a file that was read. -/
def Warning.OfInput : Warning → Prop
  | .hashedDifferently .. | .sizesDiffer .. | .device .. => True
  | _ => False

/-- From `s` to `s'` these records were read. -/
structure Reads (rs : List Record) (s s' : Collected) : Prop where
  extractions : s'.extractions = s.extractions ++ rs.flatMap (fun r => extractionsOf r.result)
  pools : s'.pools = rs.foldl (fun pools r => (poolsOf r.result).foldl addPool pools) s.pools
  warnings : ∀ w : Warning, ¬ w.OfInput →
    (w ∈ s'.warnings ↔
      w ∈ s.warnings ∨ ∃ r ∈ rs, r.status ≠ 0 ∧ w = .exited r.tool r.status r.argv)

section Collecting

theorem mem_pushNew {α : Type*} [DecidableEq α] {l : List α} {a b : α} :
    b ∈ pushNew l a ↔ b ∈ l ∨ b = a := by
  rw [pushNew]
  split
  case isTrue h =>
    constructor
    · exact Or.inl
    · intro hb
      cases hb with
      | inl hb => exact hb
      | inr heq => exact heq ▸ h
  case isFalse => simp

theorem compareInput_ofInput {e : Evidence} {i : FileRef} {w : Warning}
    (h : w ∈ compareInput e i) : w.OfInput := by
  rw [compareInput, List.mem_append] at h
  cases h with
  | inl h =>
    split at h
    · split at h
      · cases List.mem_singleton.mp h
        trivial
      · cases h
    · cases h
  | inr h =>
    split at h
    · cases List.mem_singleton.mp h
      trivial
    · cases h

/-- A file that was read adds warnings about it only. -/
theorem readInput_warnings (tool : String) (s : Collected) (i : FileRef) {w : Warning}
    (hw : ¬ w.OfInput) : w ∈ (readInput tool s i).warnings ↔ w ∈ s.warnings := by
  have hnote : w ≠ .device i.path := fun heq => hw (heq ▸ trivial)
  have hcompare : ∀ e, w ∉ compareInput e i := fun e h => hw (compareInput_ofInput h)
  rw [readInput]
  dsimp only
  split
  · rw [mem_pushNew, List.mem_append]
    simp [hnote, hcompare]
  · rw [List.mem_append]
    simp [hcompare]

theorem readInputs_spec (tool : String) (s : Collected) (inputs : List FileRef) :
    Reads [] s (inputs.foldl (readInput tool) s) := by
  induction inputs generalizing s with
  | nil =>
    exact
      { extractions := (List.append_nil _).symm
        pools := rfl
        warnings := fun w hw => by simp }
  | cons i inputs ih =>
    have hrest := ih (readInput tool s i)
    exact
      { extractions := hrest.extractions
        pools := hrest.pools
        warnings := fun w hw => by
          rw [List.foldl_cons, hrest.warnings w hw, readInput_warnings tool s i hw] }

theorem readRecord_spec (s : Collected) (r : Record) : Reads [r] s (readRecord s r) := by
  have hinputs := readInputs_spec r.tool { s with
    tools := pushNew s.tools { tool := r.tool, version := r.version }
    hosts := match r.host with
      | some h => pushNew s.hosts h
      | none => s.hosts
    commands := s.commands ++ [
      { ts := r.ts
        tool := r.tool
        version := r.version
        host := r.host
        argv := r.argv
        status := r.status }] } r.inputs
  rw [readRecord]
  refine { extractions := ?_, pools := ?_, warnings := fun w hw => ?_ }
  · dsimp only
    rw [hinputs.extractions]
    simp
  · dsimp only
    rw [hinputs.pools]
    rfl
  · dsimp only
    split
    case isTrue hstatus =>
      rw [List.mem_append, hinputs.warnings w hw]
      simp [hstatus]
    case isFalse hstatus =>
      rw [hinputs.warnings w hw]
      simp [hstatus]

theorem foldl_readRecord (rs : List Record) (s : Collected) :
    Reads rs s (rs.foldl readRecord s) := by
  induction rs generalizing s with
  | nil =>
    exact
      { extractions := (List.append_nil _).symm
        pools := rfl
        warnings := fun w hw => by simp }
  | cons r rs ih =>
    have hone := readRecord_spec s r
    have hrest := ih (readRecord s r)
    refine { extractions := ?_, pools := ?_, warnings := fun w hw => ?_ }
    · rw [List.foldl_cons, hrest.extractions, hone.extractions]
      simp
    · rw [List.foldl_cons, hrest.pools, hone.pools]
      rfl
    · rw [List.foldl_cons, hrest.warnings w hw, hone.warnings w hw]
      simp [or_assoc]

end Collecting

variable {records : List (LogRef × List Record)}

theorem mem_chronological {r : Record} :
    r ∈ chronological records ↔ ∃ log ∈ records, r ∈ log.2 := by
  have hzip : ∀ {α : Type} (l : List α) (a : α), (∃ i, (a, i) ∈ l.zipIdx) ↔ a ∈ l := by
    intro α l a
    simp only [List.mem_zipIdx_iff_getElem?]
    exact List.mem_iff_getElem?.symm
  rw [chronological]
  simp only [List.mem_map, List.mem_mergeSort, List.mem_flatMap, Prod.exists]
  constructor
  · rintro ⟨_, _, _, _, ⟨ref, rs, _, hlog, _, _, hline, heq⟩, rfl⟩
    cases heq
    exact ⟨ref, rs, (hzip _ _).mp ⟨_, hlog⟩, (hzip _ _).mp ⟨_, hline⟩⟩
  · rintro ⟨ref, rs, hlog, hr⟩
    obtain ⟨n, hn⟩ := (hzip _ _).mpr hlog
    obtain ⟨k, hk⟩ := (hzip _ _).mpr hr
    exact ⟨_, _, _, _, ⟨ref, rs, n, hn, r, k, hk, rfl⟩, rfl⟩

/-- The texts of the report are those of its notices. -/
theorem mem_warnings (opts : Options) {text : String} :
    text ∈ (assemble records opts).warnings ↔ ∃ w ∈ notices records, w.text = text := by
  rw [assemble]
  simp

theorem mem_extractions {e : Extraction} :
    e ∈ (collect records).extractions ↔
      ∃ log ∈ records, ∃ r ∈ log.2, e ∈ extractionsOf r.result := by
  rw [collect, (foldl_readRecord _ _).extractions]
  simp only [Collected.empty, List.nil_append, List.mem_flatMap, mem_chronological]
  constructor
  · rintro ⟨r, ⟨log, hlog, hr⟩, he⟩
    exact ⟨log, hlog, r, hr, he⟩
  · rintro ⟨log, hlog, r, hr, he⟩
    exact ⟨r, ⟨log, hlog, hr⟩, he⟩

theorem mem_extractionWarnings {pools : List Pool} {e : Extraction} {w : Warning} :
    w ∈ extractionWarnings pools e ↔
      (e.aborted = true ∧ w = .stopped e.dataset e.output) ∨
      (0 < e.errors ∧ w = .zeroed e.dataset e.errors) ∨
      (e.sha256 = none ∧ w = .noHash e.dataset e.output) ∨
      ∃ a b, firstWindow pools = some (a, b) ∧ outsideWindow (a, b) e.txg = true ∧
        w = .outside e.dataset e.txg a b := by
  rw [extractionWarnings]
  cases firstWindow pools with
  | none => simp
  | some window => simp [Prod.ext_iff]

theorem mixedWarnings_mixed {tools : List ToolRef} {w : Warning} (h : w ∈ mixedWarnings tools) :
    ∃ tool version other, w = .mixed tool version other := by
  obtain ⟨t, -, hw⟩ := List.mem_filterMap.mp h
  obtain ⟨other, -, rfl⟩ := Option.map_eq_some_iff.mp hw
  exact ⟨_, _, _, rfl⟩

/-- Runs that ended otherwise are named with their command lines. -/
theorem exited_mem_notices {tool : String} {status : Nat} {argv : List String} :
    .exited tool status argv ∈ notices records ↔
      ∃ log ∈ records, ∃ r ∈ log.2, r.status ≠ 0 ∧
        r.tool = tool ∧ r.status = status ∧ r.argv = argv := by
  have hinput : ¬ (Warning.exited tool status argv).OfInput := fun h => h
  rw [notices, List.mem_append, List.mem_append, collect, (foldl_readRecord _ _).warnings _ hinput]
  constructor
  · rintro (((h | ⟨r, hr, hstatus, heq⟩) | h) | h)
    · cases h
    · obtain ⟨log, hlog, hr⟩ := mem_chronological.mp hr
      cases heq
      exact ⟨log, hlog, r, hr, hstatus, rfl, rfl, rfl⟩
    · obtain ⟨e, -, hw⟩ := List.mem_flatMap.mp h
      obtain ⟨-, h⟩ | ⟨-, h⟩ | ⟨-, h⟩ | ⟨_, _, -, -, h⟩ := mem_extractionWarnings.mp hw <;> cases h
    · obtain ⟨_, _, _, h⟩ := mixedWarnings_mixed h
      cases h
  · rintro ⟨log, hlog, r, hr, hstatus, rfl, rfl, rfl⟩
    exact .inl (.inl (.inr ⟨r, mem_chronological.mpr ⟨log, hlog, hr⟩, hstatus, rfl⟩))

/-- What is said of extractions is said for one of them. -/
theorem mem_notices_of_extraction {w : Warning} (hinput : ¬ w.OfInput)
    (hexited : ∀ tool status argv, w ≠ .exited tool status argv)
    (hmixed : ∀ tool version other, w ≠ .mixed tool version other) :
    w ∈ notices records ↔
      ∃ e ∈ (collect records).extractions, w ∈ extractionWarnings (collect records).pools e := by
  rw [notices, List.mem_append, List.mem_append]
  constructor
  · rintro ((h | h) | h)
    · rw [collect, (foldl_readRecord _ _).warnings w hinput] at h
      cases h with
      | inl h => cases h
      | inr h =>
        obtain ⟨r, -, -, heq⟩ := h
        exact absurd heq (hexited _ _ _)
    · exact List.mem_flatMap.mp h
    · obtain ⟨_, _, _, heq⟩ := mixedWarnings_mixed h
      exact absurd heq (hmixed _ _ _)
  · intro h
    exact .inl (.inr (List.mem_flatMap.mpr h))

end Report
end ZvolRescue
