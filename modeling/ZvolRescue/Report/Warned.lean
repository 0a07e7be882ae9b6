import ZvolRescue.Extract.Dump
import ZvolRescue.Report.Build

/-!
# What the report warns of

The records of the tools that extract and scan, and what a report of them says of an image that
is not the whole volume.  Zeroed blocks and stops are told; salvaged blocks and interrupts are
not, nor is anything `zvolcarve` extracted, but for the command lines of runs that did not exit
with 0.  The window an extraction is compared with is the first in the list of pools.
-/

namespace ZvolRescue
namespace Report

open Extract

/-! ## Documents -/

/-- A field that is left out when there is nothing. -/
def optional (key : String) : Option Json → List (String × Json)
  | some v => [(key, v)]
  | none => []

/-- A field that is there all the same. -/
def orNull (v : Option Json) : Json := v.getD .null

/-- A volume of a run of `dump`, and where it went. -/
structure Volume where
  out : DumpOut
  output : String

def Volume.json (v : Volume) : Json :=
  let report := v.out.report
  .obj (
    [("dataset", .str v.out.dataset), ("dataset_guid", .str v.out.datasetGuid),
      ("txg", .u64 v.out.txg), ("output", .str v.output), ("volsize", .u64 report.volsize),
      ("blocksize", .u64 report.blocksize), ("blocks_total", .u64 report.blocksTotal),
      ("blocks_read", .u64 report.blocksRead), ("blocks_holes", .u64 report.blocksHoles),
      ("blocks_zeroed", .u64 report.blocksZeroed), ("blocks_salvaged", .u64 report.blocksSalvaged),
      ("bytes_written", .u64 report.bytesWritten),
      ("resumed_from_block", .u64 v.out.resumedFromBlock), ("strict", .bool v.out.strict),
      ("aborted", .bool report.aborted)] ++
    optional "stopped_by_medium" (report.stoppedByMedium.map .str) ++
    optional "interrupted_at" (report.interruptedAt.map .u64) ++
    [("sha256", .str report.sha256)] ++
    optional "sha1" (report.sha1.map .str) ++
    optional "md5" (report.md5.map .str))

/-- A run of `zvolrescue dump`: what became of its targets, a volume or an exit code. -/
structure DumpRun where
  pool : String
  poolGuid : String
  recursive : Bool
  targets : List (Except Nat Volume)
  /-- What writing the manifest adds to the status. -/
  manifest : Nat
  anyFailed : Bool
  mediumStop : Bool

/-- The volumes that are written, up to an interrupt, and the status. -/
def dumpVolumes : List (Except Nat Volume) → (code : Nat) → List Volume × Nat
  | [], code => ([], code)
  | .error c :: targets, code => dumpVolumes targets (max code c)
  | .ok v :: targets, code =>
    let report := v.out.report
    let code := Exit.afterExtraction code report.aborted
      (report.blocksZeroed + report.blocksSalvaged)
    if report.interruptedAt.isSome then ([v], max code Exit.interrupted)
    else
      let rest := dumpVolumes targets code
      (v :: rest.1, rest.2)

def DumpRun.volumes (d : DumpRun) : List Volume := (dumpVolumes d.targets 0).1

def DumpRun.status (d : DumpRun) : Nat :=
  let code := max (dumpVolumes d.targets 0).2 d.manifest
  let code := if code = 0 ∧ d.anyFailed then Exit.evidence else code
  if d.mediumStop then Exit.medium else code

def DumpRun.json (d : DumpRun) : Json :=
  .obj [("pool", .str d.pool), ("pool_guid", .str d.poolGuid), ("recursive", .bool d.recursive),
    ("volumes", .arr (d.volumes.map Volume.json))]

/-- A run of `zvolcarve dump`. -/
structure CarveRun where
  candidate : String
  output : String
  size : Nat
  resumedFromBlock : Nat
  report : Extract.Report
  mediumStop : Bool

def CarveRun.status (c : CarveRun) : Nat :=
  if c.mediumStop then Exit.medium else exitCode c.report

def CarveRun.json (c : CarveRun) : Json :=
  .obj [("candidate", .str c.candidate), ("output", .str c.output), ("size", .u64 c.size),
    ("blocksize", .u64 c.report.blocksize), ("blocks_total", .u64 c.report.blocksTotal),
    ("blocks_read", .u64 c.report.blocksRead), ("blocks_holes", .u64 c.report.blocksHoles),
    ("blocks_zeroed", .u64 c.report.blocksZeroed),
    ("blocks_salvaged", .u64 c.report.blocksSalvaged),
    ("bytes_written", .u64 c.report.bytesWritten),
    ("resumed_from_block", .u64 c.resumedFromBlock), ("aborted", .bool c.report.aborted),
    ("stopped_by_medium", orNull (c.report.stoppedByMedium.map .str)),
    ("interrupted_at", orNull (c.report.interruptedAt.map .u64)),
    ("sha256", .str c.report.sha256), ("sha1", orNull (c.report.sha1.map .str)),
    ("md5", orNull (c.report.md5.map .str))]

structure ScannedDevice where
  newestTxg : Option Nat
  oldestTxg : Option Nat

structure ScannedPool where
  name : String
  guid : String
  state : Option String
  readable : Bool

/-- A run of `zvolrescue scan`. -/
structure ScanRun where
  devices : List ScannedDevice
  pools : List ScannedPool
  status : Nat

def ScannedDevice.json (d : ScannedDevice) : Json :=
  .obj [("newest_txg", orNull (d.newestTxg.map .u64)),
    ("oldest_txg", orNull (d.oldestTxg.map .u64))]

def ScannedPool.json (p : ScannedPool) : Json :=
  .obj [("name", .str p.name), ("guid", .str p.guid), ("state", orNull (p.state.map .str)),
    ("readable", .bool p.readable)]

def ScanRun.json (s : ScanRun) : Json :=
  .obj [("devices", .arr (s.devices.map ScannedDevice.json)),
    ("pools", .arr (s.pools.map ScannedPool.json))]

/-! ## Records of runs -/

/-- What a record says besides the document. -/
structure Frame where
  ts : Nat
  version : String
  host : Option String
  argv : List String
  inputs : List FileRef
  outputs : List FileRef
  incidents : List Json

inductive Outcome where
  | dump (d : DumpRun)
  | carve (c : CarveRun)
  | scan (s : ScanRun)
  /-- A run that ended before its first byte of output. -/
  | early (tool : String) (members : List String) (status : Nat)

def Outcome.tool : Outcome → String
  | .dump _ | .scan _ => "zvolrescue"
  | .carve _ => "zvolcarve"
  | .early tool _ _ => tool

def Outcome.json : Outcome → Json
  | .dump d => d.json
  | .carve c => c.json
  | .scan s => s.json
  | .early _ members _ => .obj [("members", .arr (members.map .str)), ("produced", .bool false)]

def Outcome.status : Outcome → Nat
  | .dump d => d.status
  | .carve c => c.status
  | .scan s => s.status
  | .early _ _ status => status

structure Run where
  frame : Frame
  outcome : Outcome

def Run.record (r : Run) : Record where
  v := formatVersion
  ts := r.frame.ts
  tool := r.outcome.tool
  version := r.frame.version
  host := r.frame.host
  argv := r.frame.argv
  inputs := r.frame.inputs
  outputs := r.frame.outputs
  result := r.outcome.json
  incidents := r.frame.incidents
  status := r.outcome.status

/-- The logs of these runs. -/
def recordsOf (logs : List (LogRef × List Run)) : List (LogRef × List Record) :=
  logs.map (fun log => (log.1, log.2.map Run.record))

def IsRun (logs : List (LogRef × List Run)) (r : Run) : Prop := ∃ log ∈ logs, r ∈ log.2

/-! ## What should be warned of -/

/-- An image some run extracted. -/
structure Taken where
  name : String
  output : String
  report : Extract.Report

def Outcome.taken : Outcome → List Taken
  | .dump d =>
    d.volumes.map (fun v =>
      { name := v.out.dataset
        output := v.output
        report := v.out.report })
  | .carve c => [{ name := c.candidate, output := c.output, report := c.report }]
  | .scan _ | .early .. => []

/-- The image is the whole volume. -/
structure Taken.Whole (x : Taken) : Prop where
  aborted : x.report.aborted = false
  interrupted : x.report.interruptedAt = none
  zeroed : x.report.blocksZeroed = 0
  salvaged : x.report.blocksSalvaged = 0

/-- A command line with this text in it. -/
def Mentions (argv : List String) (text : String) : Prop :=
  text.toList <:+: (" ".intercalate argv).toList

instance (argv : List String) (text : String) : Decidable (Mentions argv text) :=
  inferInstanceAs (Decidable (text.toList <:+: (" ".intercalate argv).toList))

/-- The warning says that an image is not whole, and names this one or its output. -/
def Warning.Tells (x : Taken) : Warning → Prop
  | .stopped dataset output => dataset = x.name ∨ output = x.output
  | .zeroed dataset _ => dataset = x.name
  | .exited _ _ argv => Mentions argv x.name ∨ Mentions argv x.output
  | _ => False

/-- Every image that is not whole is warned of. -/
def WarnsOfPartial (logs : List (LogRef × List Run)) : Prop :=
  ∀ r, IsRun logs r → ∀ x ∈ r.outcome.taken, ¬ x.Whole →
    ∃ w ∈ notices (recordsOf logs), w.Tells x

/-- The pools of a report of these runs. -/
def poolsIn (logs : List (LogRef × List Run)) : List Pool :=
  (chronological (recordsOf logs)).foldl (fun pools r => (poolsOf r.result).foldl addPool pools) []

/-- The window recorded for the pool with this GUID. -/
def windowFor (logs : List (LogRef × List Run)) (guid : String) : Option (Nat × Nat) :=
  ((poolsIn logs).find? (fun p => p.guid = guid)).bind Pool.txgWindow

def Outside (window : Option (Nat × Nat)) (txg : Nat) : Prop :=
  ∃ w, window = some w ∧ outsideWindow w txg = true

/-- A volume is said to be outside the window exactly when it is outside that of its pool. -/
def WarnsOfWindow (logs : List (LogRef × List Run)) : Prop :=
  ∀ frame d, IsRun logs ⟨frame, .dump d⟩ → ∀ v ∈ d.volumes,
    ((∃ a b, .outside v.out.dataset v.out.txg a b ∈ notices (recordsOf logs)) ↔
      Outside (windowFor logs d.poolGuid) v.out.txg)

/-! ## When it is -/

/-- Something of this name or with this output stopped or was zeroed, or a run that did not exit
with 0 has it on its command line. -/
def Told (logs : List (LogRef × List Run)) (x : Taken) : Prop :=
  (∃ frame d, IsRun logs ⟨frame, .dump d⟩ ∧ ∃ v ∈ d.volumes,
    (v.out.report.aborted = true ∧ (v.out.dataset = x.name ∨ v.output = x.output)) ∨
    (0 < v.out.report.blocksZeroed ∧ v.out.dataset = x.name)) ∨
  ∃ r, IsRun logs r ∧ r.outcome.status ≠ 0 ∧
    (Mentions r.frame.argv x.name ∨ Mentions r.frame.argv x.output)

/-- The first window and that of its own pool agree on a volume. -/
def SameWindow (logs : List (LogRef × List Run)) : Prop :=
  ∀ frame d, IsRun logs ⟨frame, .dump d⟩ → ∀ v ∈ d.volumes,
    (Outside (firstWindow (poolsIn logs)) v.out.txg ↔
      Outside (windowFor logs d.poolGuid) v.out.txg)

/-! ## What the report reads of a run -/

/-- What is read of a volume. -/
def Volume.extraction (v : Volume) : Extraction where
  dataset := v.out.dataset
  txg := v.out.txg
  output := v.output
  size := v.out.report.volsize
  sha256 := some v.out.report.sha256
  sha1 := v.out.report.sha1
  md5 := v.out.report.md5
  errors := v.out.report.blocksZeroed
  aborted := v.out.report.aborted

section Documents

theorem extractionsOf_volumes (fields : List (String × Json)) (volumes : List Volume)
    (h : fields.lookup "volumes" = some (.arr (volumes.map Volume.json))) :
    extractionsOf (.obj fields) = volumes.map Volume.extraction := by
  have harray : (Json.obj fields).arrayAt "volumes" = some (volumes.map Volume.json) := by
    rw [Json.arrayAt, Json.get, h]
    rfl
  rw [extractionsOf, harray]
  dsimp only
  rw [List.filterMap_map, ← List.filterMap_eq_map]
  congr 1
  funext v
  obtain ⟨⟨dataset, guid, txg, report, resumed, strict⟩, output⟩ := v
  obtain ⟨volsize, blocksize, total, read, holes, zeroed, salvaged, written, bad, aborted, stopped,
    interrupted, sha256, sha1, md5⟩ := report
  cases stopped <;> cases interrupted <;> cases sha1 <;> cases md5 <;> rfl

/-- Only what `zvolrescue dump` wrote is read. -/
theorem extractionsOf_json (o : Outcome) :
    extractionsOf o.json =
      match o with
      | .dump d => d.volumes.map Volume.extraction
      | _ => [] := by
  cases o with
  | dump d => exact extractionsOf_volumes _ d.volumes rfl
  | carve c => rfl
  | scan s => rfl
  | early tool members status => rfl

end Documents

variable {logs : List (LogRef × List Run)}

theorem mem_recordsOf {r : Record} :
    (∃ log ∈ recordsOf logs, r ∈ log.2) ↔ ∃ run, IsRun logs run ∧ run.record = r := by
  constructor
  · rintro ⟨log, hlog, hr⟩
    obtain ⟨log, hmem, rfl⟩ := List.mem_map.mp hlog
    obtain ⟨run, hrun, heq⟩ := List.mem_map.mp hr
    exact ⟨run, ⟨log, hmem, hrun⟩, heq⟩
  · rintro ⟨run, ⟨log, hlog, hrun⟩, heq⟩
    exact ⟨_, List.mem_map_of_mem hlog, List.mem_map.mpr ⟨run, hrun, heq⟩⟩

theorem mem_extractions_runs {e : Extraction} :
    e ∈ (collect (recordsOf logs)).extractions ↔
      ∃ frame d, IsRun logs ⟨frame, .dump d⟩ ∧ ∃ v ∈ d.volumes, v.extraction = e := by
  rw [mem_extractions]
  constructor
  · rintro ⟨log, hlog, r, hr, he⟩
    obtain ⟨⟨frame, outcome⟩, hrun, rfl⟩ := mem_recordsOf.mp ⟨log, hlog, hr⟩
    have hdoc : e ∈ extractionsOf outcome.json := he
    rw [extractionsOf_json] at hdoc
    cases outcome with
    | dump d => exact ⟨frame, d, hrun, List.mem_map.mp hdoc⟩
    | carve c => cases hdoc
    | scan s => cases hdoc
    | early tool members status => cases hdoc
  · rintro ⟨frame, d, hrun, hv⟩
    obtain ⟨log, hlog, hr⟩ := mem_recordsOf.mpr ⟨_, hrun, rfl⟩
    refine ⟨log, hlog, _, hr, ?_⟩
    show e ∈ extractionsOf (Outcome.dump d).json
    rw [extractionsOf_json]
    exact List.mem_map.mpr hv

theorem collect_pools : (collect (recordsOf logs)).pools = poolsIn logs :=
  (foldl_readRecord _ _).pools

theorem stopped_mem_notices {dataset output : String} :
    .stopped dataset output ∈ notices (recordsOf logs) ↔
      ∃ frame d, IsRun logs ⟨frame, .dump d⟩ ∧ ∃ v ∈ d.volumes,
        v.out.report.aborted = true ∧ v.out.dataset = dataset ∧ v.output = output := by
  have hinput : ¬ (Warning.stopped dataset output).OfInput := fun h => h
  rw [mem_notices_of_extraction hinput (by simp) (by simp)]
  simp only [mem_extractions_runs, mem_extractionWarnings]
  constructor
  · rintro ⟨_, ⟨frame, d, hrun, v, hv, rfl⟩, hw⟩
    obtain ⟨haborted, heq⟩ | ⟨-, heq⟩ | ⟨-, heq⟩ | ⟨_, _, -, -, heq⟩ := hw <;> cases heq
    exact ⟨frame, d, hrun, v, hv, haborted, rfl, rfl⟩
  · rintro ⟨frame, d, hrun, v, hv, haborted, rfl, rfl⟩
    exact ⟨_, ⟨frame, d, hrun, v, hv, rfl⟩, .inl ⟨haborted, rfl⟩⟩

theorem zeroed_mem_notices {dataset : String} {errors : Nat} :
    .zeroed dataset errors ∈ notices (recordsOf logs) ↔
      ∃ frame d, IsRun logs ⟨frame, .dump d⟩ ∧ ∃ v ∈ d.volumes,
        0 < v.out.report.blocksZeroed ∧ v.out.dataset = dataset ∧
          v.out.report.blocksZeroed = errors := by
  have hinput : ¬ (Warning.zeroed dataset errors).OfInput := fun h => h
  rw [mem_notices_of_extraction hinput (by simp) (by simp)]
  simp only [mem_extractions_runs, mem_extractionWarnings]
  constructor
  · rintro ⟨_, ⟨frame, d, hrun, v, hv, rfl⟩, hw⟩
    obtain ⟨-, heq⟩ | ⟨hzeroed, heq⟩ | ⟨-, heq⟩ | ⟨_, _, -, -, heq⟩ := hw <;> cases heq
    exact ⟨frame, d, hrun, v, hv, hzeroed, rfl, rfl⟩
  · rintro ⟨frame, d, hrun, v, hv, hzeroed, rfl, rfl⟩
    exact ⟨_, ⟨frame, d, hrun, v, hv, rfl⟩, .inr (.inl ⟨hzeroed, rfl⟩)⟩

theorem outside_mem_notices {dataset : String} {txg a b : Nat} :
    .outside dataset txg a b ∈ notices (recordsOf logs) ↔
      firstWindow (poolsIn logs) = some (a, b) ∧ outsideWindow (a, b) txg = true ∧
        ∃ frame d, IsRun logs ⟨frame, .dump d⟩ ∧ ∃ v ∈ d.volumes,
          v.out.dataset = dataset ∧ v.out.txg = txg := by
  have hinput : ¬ (Warning.outside dataset txg a b).OfInput := fun h => h
  rw [mem_notices_of_extraction hinput (by simp) (by simp)]
  simp only [mem_extractions_runs, mem_extractionWarnings, collect_pools]
  constructor
  · rintro ⟨_, ⟨frame, d, hrun, v, hv, rfl⟩, hw⟩
    obtain ⟨-, heq⟩ | ⟨-, heq⟩ | ⟨-, heq⟩ | ⟨_, _, hfirst, hout, heq⟩ := hw <;> cases heq
    exact ⟨hfirst, hout, frame, d, hrun, v, hv, rfl, rfl⟩
  · rintro ⟨hfirst, hout, frame, d, hrun, v, hv, rfl, rfl⟩
    exact ⟨_, ⟨frame, d, hrun, v, hv, rfl⟩, .inr (.inr (.inr ⟨a, b, hfirst, hout, rfl⟩))⟩

theorem exited_mem_notices_runs {tool : String} {status : Nat} {argv : List String} :
    .exited tool status argv ∈ notices (recordsOf logs) ↔
      ∃ r, IsRun logs r ∧ r.outcome.status ≠ 0 ∧ r.outcome.tool = tool ∧
        r.outcome.status = status ∧ r.frame.argv = argv := by
  rw [exited_mem_notices]
  constructor
  · rintro ⟨log, hlog, r, hr, hstatus, htool, hsame, hargv⟩
    obtain ⟨run, hrun, rfl⟩ := mem_recordsOf.mp ⟨log, hlog, hr⟩
    exact ⟨run, hrun, hstatus, htool, hsame, hargv⟩
  · rintro ⟨run, hrun, hstatus, htool, hsame, hargv⟩
    obtain ⟨log, hlog, hr⟩ := mem_recordsOf.mpr ⟨run, hrun, rfl⟩
    exact ⟨log, hlog, _, hr, hstatus, htool, hsame, hargv⟩

/-! ## Images that are not whole -/

theorem tells_iff_told (x : Taken) :
    (∃ w ∈ notices (recordsOf logs), w.Tells x) ↔ Told logs x := by
  constructor
  · rintro ⟨w, hw, htells⟩
    cases w with
    | stopped dataset output =>
      obtain ⟨frame, d, hrun, v, hv, haborted, rfl, rfl⟩ := stopped_mem_notices.mp hw
      exact .inl ⟨frame, d, hrun, v, hv, .inl ⟨haborted, htells⟩⟩
    | zeroed dataset errors =>
      obtain ⟨frame, d, hrun, v, hv, hzeroed, rfl, rfl⟩ := zeroed_mem_notices.mp hw
      exact .inl ⟨frame, d, hrun, v, hv, .inr ⟨hzeroed, htells⟩⟩
    | exited tool status argv =>
      obtain ⟨r, hrun, hstatus, rfl, rfl, rfl⟩ := exited_mem_notices_runs.mp hw
      exact .inr ⟨r, hrun, hstatus, htells⟩
    | _ => exact htells.elim
  · rintro (⟨frame, d, hrun, v, hv, ⟨haborted, hsame⟩ | ⟨hzeroed, hsame⟩⟩ |
      ⟨r, hrun, hstatus, hmentions⟩)
    · exact ⟨_, stopped_mem_notices.mpr ⟨frame, d, hrun, v, hv, haborted, rfl, rfl⟩, hsame⟩
    · exact ⟨_, zeroed_mem_notices.mpr ⟨frame, d, hrun, v, hv, hzeroed, rfl, rfl⟩, hsame⟩
    · exact ⟨_, exited_mem_notices_runs.mpr ⟨r, hrun, hstatus, rfl, rfl, rfl⟩, hmentions⟩

section Status

theorem exitCode_whole {x : Taken} (h : exitCode x.report = 0) : x.Whole := by
  rw [exitCode] at h
  rw [Exit.afterExtraction] at h
  cases hat : x.report.interruptedAt with
  | some at_ =>
    rw [hat, Option.isSome_some, if_pos rfl, Exit.interrupted] at h
    omega
  | none =>
    rw [hat, Option.isSome_none, if_neg Bool.false_ne_true] at h
    split at h
    · rw [Exit.part] at h
      omega
    case isFalse hnone =>
      rw [not_or] at hnone
      obtain ⟨haborted, hblocks⟩ := hnone
      exact
        { aborted := Bool.eq_false_iff.mpr haborted
          interrupted := hat
          zeroed := by omega
          salvaged := by omega }

theorem le_dumpVolumes (targets : List (Except Nat Volume)) (code : Nat) :
    code ≤ (dumpVolumes targets code).2 := by
  induction targets generalizing code with
  | nil => exact Nat.le_refl _
  | cons target targets ih =>
    cases target with
    | error c => exact (Nat.le_max_left code c).trans (ih _)
    | ok v =>
      have hafter : code ≤ Exit.afterExtraction code v.out.report.aborted
          (v.out.report.blocksZeroed + v.out.report.blocksSalvaged) := by
        rw [Exit.afterExtraction]
        split
        · exact Nat.le_max_left _ _
        · exact Nat.le_refl _
      rw [dumpVolumes]
      dsimp only
      split
      · exact hafter.trans (Nat.le_max_left _ _)
      · exact hafter.trans (ih _)

/-- A volume that is not whole shows in the status. -/
theorem dumpVolumes_status (targets : List (Except Nat Volume)) (code : Nat) (v : Volume)
    (hv : v ∈ (dumpVolumes targets code).1) (hstatus : (dumpVolumes targets code).2 = 0) :
    exitCode v.out.report = 0 := by
  induction targets generalizing code with
  | nil => cases hv
  | cons target targets ih =>
    cases target with
    | error c => exact ih _ hv hstatus
    | ok u =>
      rw [dumpVolumes] at hv hstatus
      dsimp only at hv hstatus
      split at hstatus
      case isTrue => exact absurd hstatus (by rw [Exit.interrupted]; omega)
      case isFalse hgoes =>
        rw [if_neg hgoes] at hv
        cases List.mem_cons.mp hv with
        | inr hv => exact ih _ hv hstatus
        | inl heq =>
          have hle := le_dumpVolumes targets (Exit.afterExtraction code u.out.report.aborted
            (u.out.report.blocksZeroed + u.out.report.blocksSalvaged))
          rw [heq, exitCode, if_neg hgoes]
          rw [hstatus, Exit.afterExtraction] at hle
          rw [Exit.afterExtraction]
          split
          case isTrue hdamaged =>
            rw [if_pos hdamaged, Exit.part] at hle
            omega
          case isFalse => rfl

/-- A run that leaves an image that is not whole does not exit with 0. -/
theorem status_of_part {r : Run} {x : Taken} (hx : x ∈ r.outcome.taken) (hpart : ¬ x.Whole) :
    r.outcome.status ≠ 0 := by
  intro hstatus
  refine hpart (exitCode_whole ?_)
  obtain ⟨frame, outcome⟩ := r
  cases outcome with
  | dump d =>
    obtain ⟨v, hv, rfl⟩ := List.mem_map.mp hx
    have hcode : d.status = 0 := hstatus
    rw [DumpRun.status] at hcode
    split at hcode
    · cases hcode
    · split at hcode
      · cases hcode
      · exact dumpVolumes_status d.targets 0 v hv (by omega)
  | carve c =>
    have hcode : c.status = 0 := hstatus
    rw [CarveRun.status] at hcode
    split at hcode
    · cases hcode
    · cases List.mem_singleton.mp hx
      exact hcode
  | scan s => cases hx
  | early tool members status => cases hx

/-- An image that is on its own run's command line is told. -/
theorem told_of_mentions {r : Run} (hrun : IsRun logs r) {x : Taken} (hx : x ∈ r.outcome.taken)
    (hpart : ¬ x.Whole)
    (hmentions : Mentions r.frame.argv x.name ∨ Mentions r.frame.argv x.output) : Told logs x :=
  .inr ⟨r, hrun, status_of_part hx hpart, hmentions⟩

end Status

theorem outside_iff {frame : Frame} {d : DumpRun} (hrun : IsRun logs ⟨frame, .dump d⟩) {v : Volume}
    (hv : v ∈ d.volumes) :
    (∃ a b, .outside v.out.dataset v.out.txg a b ∈ notices (recordsOf logs)) ↔
      Outside (firstWindow (poolsIn logs)) v.out.txg := by
  constructor
  · rintro ⟨a, b, hw⟩
    obtain ⟨hfirst, hout, -⟩ := outside_mem_notices.mp hw
    exact ⟨(a, b), hfirst, hout⟩
  · rintro ⟨⟨a, b⟩, hfirst, hout⟩
    exact ⟨a, b, outside_mem_notices.mpr ⟨hfirst, hout, frame, d, hrun, v, hv, rfl, rfl⟩⟩

/-- Every image that is not whole and every TXG outside the window of its pool is warned of just
where the former is told and the first window is as good as that of the pool. -/
theorem assemble_warns_iff (logs : List (LogRef × List Run)) (opts : Options) :
    (∀ text, text ∈ (assemble (recordsOf logs) opts).warnings ↔
      ∃ w ∈ notices (recordsOf logs), w.text = text) ∧
    (WarnsOfPartial logs ∧ WarnsOfWindow logs ↔
      (∀ r, IsRun logs r → ∀ x ∈ r.outcome.taken, ¬ x.Whole → Told logs x) ∧ SameWindow logs) := by
  refine ⟨fun text => mem_warnings opts, ?_⟩
  have hpart : WarnsOfPartial logs ↔
      ∀ r, IsRun logs r → ∀ x ∈ r.outcome.taken, ¬ x.Whole → Told logs x := by
    simp only [WarnsOfPartial, tells_iff_told]
  have hwindow : WarnsOfWindow logs ↔ SameWindow logs := by
    constructor
    · intro h frame d hrun v hv
      rw [← outside_iff hrun hv]
      exact h frame d hrun v hv
    · intro h frame d hrun v hv
      rw [outside_iff hrun hv]
      exact h frame d hrun v hv
  rw [hpart, hwindow]

/-- Two blocks of a volume, of one of which only some sectors could be read. -/
def salvagedReport : Extract.Report where
  volsize := 8192
  blocksize := 4096
  blocksTotal := 2
  blocksRead := 1
  blocksHoles := 0
  blocksZeroed := 0
  blocksSalvaged := 1
  bytesWritten := 8192
  bad := [{ offset := 4096, len := 512, blkid := 1, reason := "I/O error" }]
  aborted := false
  stoppedByMedium := none
  interruptedAt := none
  sha256 := "5d"
  sha1 := none
  md5 := none

/-- A recursive dump of `tank` that wrote this one volume. -/
def salvagedRun : Run where
  frame :=
    { ts := 1000
      version := "0.9.0"
      host := none
      argv := ["zvolrescue", "dump", "tank", "--image", "d0.img", "-r", "-o", "out"]
      inputs := []
      outputs := []
      incidents := [] }
  outcome := .dump
    { pool := "tank"
      poolGuid := "0x0000000000000007"
      recursive := true
      targets := [.ok
        { out :=
            { dataset := "tank/vm"
              datasetGuid := "0x0000000000000009"
              txg := 5
              report := salvagedReport
              resumedFromBlock := 0
              strict := false }
          output := "out/tank_vm.img" }]
      manifest := 0
      anyFailed := false
      mediumStop := false }

def salvagedLogs : List (LogRef × List Run) :=
  [({ path := "case.jsonl", records := 1, sha256 := "c0" }, [salvagedRun])]

theorem salvagedLogs_notices :
    notices (recordsOf salvagedLogs) =
      [.exited "zvolrescue" 4
        ["zvolrescue", "dump", "tank", "--image", "d0.img", "-r", "-o", "out"]] := by
  decide +kernel

/-- Nothing in the report names the image that was salvaged. -/
theorem salvaged_not_warned : ¬ (WarnsOfPartial salvagedLogs ∧ WarnsOfWindow salvagedLogs) := by
  rintro ⟨hpart, -⟩
  have hrun : IsRun salvagedLogs salvagedRun := ⟨_, List.mem_singleton_self _,
    List.mem_singleton_self _⟩
  obtain ⟨w, hw, htells⟩ := hpart salvagedRun hrun
    { name := "tank/vm", output := "out/tank_vm.img", report := salvagedReport }
    (List.mem_singleton_self _) (fun hwhole => by cases hwhole.salvaged)
  rw [salvagedLogs_notices] at hw
  cases List.mem_singleton.mp hw
  have hnone : ∀ text ∈ ["tank/vm", "out/tank_vm.img"], ¬ Mentions salvagedRun.frame.argv text := by
    decide +kernel
  cases htells with
  | inl hname => exact hnone _ (by simp) hname
  | inr houtput => exact hnone _ (by simp) houtput

end Report
end ZvolRescue
