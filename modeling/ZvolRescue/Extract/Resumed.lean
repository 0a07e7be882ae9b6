import ZvolRescue.Extract.Dump

/-!
# Resumed extractions

The file that a resumed extraction leaves is the image it hashed exactly when the old file
held zeros wherever the extraction writes nothing (`resumed_image_iff`).
-/

namespace ZvolRescue
namespace Extract

open Lib Ondisk Zio Dmu

section Runs

variable {σ : Type}

namespace Target

variable (t : Target (StateM σ)) (opts : DumpOptions)

def blocksize : Nat := t.obj.dnode.datablksz

def blocks : Nat := blocksTotal t.obj.dnode t.volsize

/-- What the blocks give to a run that starts at `start`. -/
def reads (start : Nat) (s : σ) : Nat → BlockRead :=
  readsFrom (readVolumeBlock t.obj opts.onError) start s

/-- The blocks of the image that such a run makes. -/
def blockOf (start : Nat) (s : σ) : Nat → List UInt8 :=
  content t.blocksize t.volsize (t.reads opts start s)

/-- How many blocks such a run takes in, and what ends it. -/
def outcome (stop : Nat → Bool) (start : Nat) (s : σ) : Nat × Ending :=
  Extract.outcome (t.reads opts start s) stop (t.blocks - start) start

/-- Where a run on this output starts, with which digests and which file. -/
def opened (out : Output) : Nat × Digests × SparseFile :=
  openOutput out t.expected opts.hash opts.resume

/-- The extraction of a run. -/
def extraction (hashes : ImageHashes) (stop : Nat → Bool) (out : Output) (s : σ) :
    Except ReadError Report × Run SparseFile :=
  (extractFrom hashes t.obj t.volsize SparseFile.sink opts.onError (t.opened opts out).1
    (t.opened opts out).2.1 stop (t.opened opts out).2.2 s).1

/-- A state of this very image claims blocks inside the volume only. -/
def Within (out : Output) : Prop :=
  ∀ st, out.state = some st → st.key = t.expected.key → st.blocksDone * t.blocksize ≤ t.volsize

end Target

/-- A volume whose size is a 64-bit number and whose blocks are not empty. -/
structure Target.Sound (t : Target (StateM σ)) : Prop where
  volsize : t.volsize < word
  blocksize : t.blocksize ≠ 0

variable {t : Target (StateM σ)} {stop : Nat → Bool} {out : Output} {s : σ}

/-- A run on this output starts after a hashed prefix of the image, inside the volume. -/
structure Target.Starts (t : Target (StateM σ)) (opts : DumpOptions) (out : Output) : Prop where
  opened : Opened out t.expected opts.hash (t.opened opts out)
  le : (t.opened opts out).1 * t.blocksize ≤ t.volsize

theorem Target.starts_fresh (t : Target (StateM σ)) {opts : DumpOptions} (out : Output)
    (hfresh : opts.resume = false) : t.Starts opts out := by
  have hopened : t.opened opts out = (0, Digests.new opts.hash, SparseFile.create) := by
    rw [Target.opened, hfresh, openOutput_fresh]
  refine ⟨?_, ?_⟩
  · rw [hopened]
    exact opened_anew out t.expected opts.hash
  · rw [hopened, Nat.zero_mul]
    exact Nat.zero_le _

theorem Target.Sound.starts (ht : t.Sound) (hout : t.Within out) (opts : DumpOptions) :
    t.Starts opts out := by
  have hopened : Opened out t.expected opts.hash (t.opened opts out) := by
    apply openOutput_opened out t.expected opts.hash opts.resume
    intro st hst hkey
    exact Nat.lt_of_le_of_lt (hout st hst hkey) ht.volsize
  refine ⟨hopened, ?_⟩
  rcases hopened.origin with h | ⟨st, hst, hkey, hstart, -⟩
  · rw [h, Nat.zero_mul]
    exact Nat.zero_le _
  · rw [hstart]
    exact hout st hst hkey

/-- The extraction of a run, by what the blocks gave it. -/
theorem Target.Sound.extracted (ht : t.Sound) {opts : DumpOptions} (hstarts : t.Starts opts out)
    (hashes : ImageHashes) (stop : Nat → Bool) (s : σ) :
    ∃ report run, t.extraction opts hashes stop out s = (.ok report, run) ∧
      Extracted hashes (t.reads opts (t.opened opts out).1 s) stop t.blocksize t.volsize t.blocks
        (t.opened opts out).1 (t.opened opts out).2.1 (t.opened opts out).2.2.file
        (t.outcome opts stop (t.opened opts out).1 s).1
        (t.outcome opts stop (t.opened opts out).1 s).2 report run :=
  extractFrom_extracted hashes t.obj ht.volsize ht.blocksize opts.onError hstarts.le
    (t.opened opts out).2.1 stop (t.opened opts out).2.2 s (fun _ _ => rfl)

/-- A resumed extraction that is not aborted leaves the image it hashed if and only if the old
file holds zeros wherever nothing is written now: in holes, blocks of zeros, unreadable
blocks and past the last block. -/
theorem resumed_image_iff (hashes : ImageHashes) (ht : t.Sound) (hout : t.Within out)
    {opts : DumpOptions} {report : Report} {run : Run SparseFile}
    (hrun : t.extraction opts hashes stop out s = (.ok report, run))
    (haborted : report.aborted = false) :
    run.sink.file = run.digests.fed ↔
      ∀ i, (t.opened opts out).1 * t.blocksize ≤ i → i < t.volsize →
        ¬ Written t.blocksize (t.blockOf opts (t.opened opts out).1 s) (t.opened opts out).1
          (t.outcome opts stop (t.opened opts out).1 s).1 i →
        (t.opened opts out).2.2.file.getD i 0 = 0 := by
  have hstarts := ht.starts hout opts
  obtain ⟨report', run', hrun', hex⟩ := ht.extracted hstarts hashes stop s
  rw [hrun] at hrun'
  cases hrun'
  have hend : (t.outcome opts stop (t.opened opts out).1 s).2 ≠ .stopped := by
    intro h
    rw [hex.aborted, h] at haborted
    simp at haborted
  exact hex.image_iff hend (Nat.pos_of_ne_zero ht.blocksize) hstarts.le hstarts.opened.holds
    hstarts.opened.digests

theorem first_of_flatMap {α : Type} (f : Nat → List α) {x : α} {rest : List α} :
    ∀ m start, (List.range' start m).flatMap f = x :: rest →
      ∃ b, start ≤ b ∧ b < start + m ∧ x ∈ f b ∧ ∀ c, start ≤ c → c < b → f c = [] := by
  intro m
  induction m with
  | zero =>
    intro start h
    simp at h
  | succ m ih =>
    intro start h
    rw [List.range'_succ, List.flatMap_cons] at h
    cases hf : f start with
    | nil =>
      rw [hf, List.nil_append] at h
      obtain ⟨b, hlow, hhigh, hx, hbefore⟩ := ih (start + 1) h
      refine ⟨b, by omega, by omega, hx, ?_⟩
      intro c hc hcb
      by_cases hfirst : c = start
      · rw [hfirst, hf]
      · exact hbefore c (by omega) hcb
    | cons y ys =>
      rw [hf, List.cons_append, List.cons.injEq] at h
      refine ⟨start, Nat.le_refl _, by omega, ?_, fun c hc hcb => by omega⟩
      rw [hf, h.1]
      exact List.mem_cons_self

theorem blkid_of_mem_badOf {bs vol b : Nat} {reads : Nat → BlockRead} {x : BadRange}
    (h : x ∈ badOf bs vol reads b) : x.blkid = b := by
  rw [badOf] at h
  cases hread : reads b with
  | hole => simp [hread, BlockRead.badRanges] at h
  | data bytes => simp [hread, BlockRead.badRanges] at h
  | partly bytes ranges reason =>
    simp only [hread, BlockRead.badRanges, List.mem_map] at h
    obtain ⟨p, -, rfl⟩ := h
    rfl
  | lost reason =>
    simp only [hread, BlockRead.badRanges, List.mem_singleton] at h
    rw [h]
  | stopped reason medium =>
    simp only [hread, BlockRead.badRanges, List.mem_singleton] at h
    rw [h]

/-- The first block from `start` on that has a bad range. -/
def FirstBad (bs vol : Nat) (reads : Nat → BlockRead) (start b : Nat) : Prop :=
  start ≤ b ∧ badOf bs vol reads b ≠ [] ∧ ∀ c, start ≤ c → c < b → badOf bs vol reads c = []

section DoneBlocks

variable {hashes : ImageHashes} {reads : Nat → BlockRead} {bs vol total start n : Nat}
  {digests : Digests} {file : List UInt8} {report : Report} {run : Run SparseFile}

/-- An interrupted run is taken up at the block it saw the interrupt at. -/
theorem doneBlocks_interrupted
    (h : Extracted hashes reads stop bs vol total start digests file n .interrupted report run) :
    doneBlocks report start = start + n := by
  have hat := h.interruptedAt
  rw [if_pos rfl] at hat
  rw [doneBlocks, hat]

/-- A stopped run is taken up at the first block it could not read whole. -/
theorem doneBlocks_stopped
    (h : Extracted hashes reads stop bs vol total start digests file n .stopped report run) :
    FirstBad bs vol reads start (doneBlocks report start) ∧ doneBlocks report start ≤ start + n := by
  have hat := h.interruptedAt
  rw [if_neg (by simp)] at hat
  obtain ⟨-, -, hstops⟩ := h.ends.stopped rfl
  have hlast : badOf bs vol reads (start + n) ≠ [] := by
    rw [badOf]
    cases hread : reads (start + n) with
    | stopped reason medium => simp [BlockRead.badRanges]
    | _ =>
      rw [hread] at hstops
      cases hstops
  have hbad : report.bad = (List.range' start (n + 1)).flatMap (badOf bs vol reads) := by
    rw [h.bad, if_pos rfl, List.range'_concat, List.flatMap_append, Nat.one_mul]
    simp
  cases hhead : report.bad with
  | nil =>
    rw [hhead] at hbad
    have hall := List.flatMap_eq_nil_iff.mp hbad.symm (start + n)
      (List.mem_range'_1.mpr ⟨by omega, by omega⟩)
    exact absurd hall hlast
  | cons x rest =>
    have hdone : doneBlocks report start = x.blkid := by
      simp only [doneBlocks, hat, hhead]
    rw [hhead] at hbad
    obtain ⟨b, hlow, hhigh, hx, hbefore⟩ := first_of_flatMap _ _ _ hbad.symm
    rw [hdone, blkid_of_mem_badOf hx]
    exact ⟨⟨hlow, List.ne_nil_of_mem hx, hbefore⟩, by omega⟩

end DoneBlocks

theorem checkpoints_image (expected : State) (due : Nat → Bool) (out : Output)
    (calls : List (Nat × Nat)) : (checkpoints expected due out calls).image = out.image := by
  induction calls generalizing out with
  | nil => rfl
  | cons call calls ih =>
    show (checkpoints expected due _ calls).image = out.image
    rw [ih]
    by_cases h : due call.1 = true ∧ call.1 < call.2
    · simp only [if_pos h]
      rfl
    · simp only [if_neg h]

/-- What `dumpOne` leaves: the image, and a state unless every block was visited. -/
theorem Target.Sound.dumpOne (ht : t.Sound) {opts : DumpOptions} (hstarts : t.Starts opts out)
    (hashes : ImageHashes) (stop due : Nat → Bool) (s : σ) :
    ∃ d run, Extracted hashes (t.reads opts (t.opened opts out).1 s) stop t.blocksize t.volsize
        t.blocks (t.opened opts out).1 (t.opened opts out).2.1 (t.opened opts out).2.2.file
        (t.outcome opts stop (t.opened opts out).1 s).1
        (t.outcome opts stop (t.opened opts out).1 s).2 d.report run ∧
      d.resumedFromBlock = (t.opened opts out).1 ∧
      (Extract.dumpOne hashes t opts stop due out s).1 = (.ok d,
        { image := some run.sink.file
          state := if (t.outcome opts stop (t.opened opts out).1 s).2 = .complete then none
            else some { t.expected with
              blocksDone := doneBlocks d.report (t.opened opts out).1 } }) := by
  obtain ⟨report, run, hrun, hex⟩ := ht.extracted hstarts hashes stop s
  have hearly : (report.aborted = true ∨ report.interruptedAt.isSome = true) ↔
      (t.outcome opts stop (t.opened opts out).1 s).2 ≠ .complete := by
    rw [hex.aborted, hex.interruptedAt]
    cases (t.outcome opts stop (t.opened opts out).1 s).2 <;> simp
  refine ⟨{ dataset := t.dataset, datasetGuid := t.datasetGuid, txg := t.txg, report
            resumedFromBlock := (t.opened opts out).1, strict := opts.strict }, run, hex, rfl, ?_⟩
  simp only [Target.extraction, Target.opened] at hrun
  simp only [Extract.dumpOne, bind_run, hrun]
  by_cases hend : (t.outcome opts stop (t.opened opts out).1 s).2 = .complete
  · rw [if_neg (fun h => hearly.mp h hend), if_pos hend]
    simp only [Output.clearState, checkpoints_image]
    rfl
  · rw [if_pos (hearly.mpr hend), if_neg hend]
    simp only [Output.writeState, checkpoints_image]
    rfl

end Runs

/-! ## A hole over old bytes -/

def holePointer : BlkPtr :=
  { dva0 := Dva.empty, dva1 := Dva.empty, dva2 := Dva.empty, lsize := 512, psize := 512
    compression := .off, checksum := .off, objectType := 0, level := 0, endian := .little
    encrypted := false, embedded := false, physicalBirth := 0, birth := 0
    cksum := { w0 := 0, w1 := 0, w2 := 0, w3 := 0 }, raw := List.replicate 128 0 }

def dataPointer (birth : Nat) : BlkPtr :=
  { holePointer with dva0 := { vdev := 0, offset := 0, asize := 512, gang := false }, birth }

/-- A volume of blocks of 512 bytes, by what reading each of them gives; the rest are holes. -/
def smallTarget (blocks : List (Option (Except ReadError (List UInt8)))) (volsize : Nat) :
    Target (StateM Unit) :=
  { dataset := "tank/vol"
    datasetGuid := "0x0000000000000001"
    txg := 1
    volsize
    obj :=
      { reader :=
          { readBlock := fun bp => pure (
              match (blocks[bp.birth]?).bind id with
              | some read => read.map (fun data => { data, verify := .ok, attempts := [] })
              | none => .error .hole)
            verify := fun _ _ => pure .unsupported
            salvageDva := fun _ _ => pure (.error .noMember) }
        dnode :=
          { objectType := 23, indblkshift := 17, nlevels := 1, nblkptr := 3, bonusType := 0
            checksum := 0, compress := 0, flags := 0, datablkszsec := 1, bonuslen := 0
            extraSlots := 0, maxblkid := 2, used := 0
            blkptr := blocks.zipIdx.map (fun b => if b.1.isSome then dataPointer b.2 else holePointer)
            bonus := [], spill := none }
        endian := .little } }

/-- A volume of two holes. -/
def holesTarget : Target (StateM Unit) := smallTarget [none, none] 1024

def someHashes : ImageHashes := { sha256 := fun b => b, sha1 := fun b => b, md5 := fun b => b }

def resumeOptions : DumpOptions := { strict := false, resume := true, hash := ⟨false, false⟩ }

/-- Two blocks of `b`, the first of which is done. -/
def halfDone (b : UInt8) : Output :=
  { image := some (List.replicate 1024 b)
    state := some { holesTarget.expected with blocksDone := 1 } }

theorem smallTarget_sound (blocks : List (Option (Except ReadError (List UInt8)))) {volsize : Nat}
    (h : volsize < word) : (smallTarget blocks volsize).Sound where
  volsize := h
  blocksize := by
    have hblocksize : holesTarget.blocksize ≠ 0 := by decide
    exact hblocksize

theorem holesTarget_sound : holesTarget.Sound := smallTarget_sound _ (by decide)

theorem halfDone_within (b : UInt8) : holesTarget.Within (halfDone b) := by
  intro st hst _
  cases hst
  decide

def never : Nat → Bool := fun _ => false

def strictOptions : DumpOptions := { strict := true, resume := false, hash := ⟨false, false⟩ }

/-- A block of `first`, then one that cannot be read. -/
def tornTarget (first : Option (List UInt8)) : Target (StateM Unit) :=
  smallTarget [first.map .ok, some (.error (.io "input/output error"))] 1024

theorem tornTarget_sound (first : Option (List UInt8)) : (tornTarget first).Sound :=
  smallTarget_sound _ (by decide)

/-- The second block of the volume is taken up and taken in. -/
theorem halfDone_run (b : UInt8) :
    ∃ report run, holesTarget.extraction resumeOptions someHashes never (halfDone b) () =
      (.ok report, run) ∧ report.aborted = false := by
  obtain ⟨report, run, hrun, hex⟩ := holesTarget_sound.extracted
    (holesTarget_sound.starts (halfDone_within b) resumeOptions) someHashes never ()
  refine ⟨report, run, hrun, ?_⟩
  have hstart : (holesTarget.opened resumeOptions (halfDone b)).1 = 1 := by
    have hfit : 1 * holesTarget.expected.blocksize < word := by decide
    have h := openOutput_state ⟨false, false⟩ (show (halfDone b).state = some _ from rfl)
      (show State.key _ = holesTarget.expected.key from rfl) rfl hfit
    have hlen : 1 * 512 ≤ (List.replicate 1024 b).length := by
      rw [List.length_replicate]
      decide
    rw [if_pos ⟨by decide, hlen⟩] at h
    exact congrArg Prod.fst h
  have houtcome : (holesTarget.outcome resumeOptions never 1 ()).2 = .complete := by decide
  rw [hex.aborted, hstart, houtcome]
  rfl

theorem resumed_image_iff_zeros :
    ∃ report run, holesTarget.extraction resumeOptions someHashes never (halfDone 0) () =
      (.ok report, run) ∧ run.sink.file = run.digests.fed := by
  obtain ⟨report, run, hrun, haborted⟩ := halfDone_run 0
  refine ⟨report, run, hrun, (resumed_image_iff someHashes holesTarget_sound (halfDone_within 0)
    hrun haborted).mpr ?_⟩
  intro i _ _ _
  have hfile : (holesTarget.opened resumeOptions (halfDone 0)).2.2.file = List.replicate 1024 0 := by
    decide +kernel
  rw [hfile]
  exact allZero_getD (allZero_replicate 1024) i

/-- The hole of a resumed run keeps what an earlier run wrote there. -/
theorem resumed_image_stale :
    ¬ ∀ (σ : Type) (hashes : ImageHashes) (t : Target (StateM σ)) (opts : DumpOptions)
        (stop : Nat → Bool) (out : Output) (s : σ), t.Sound → t.Within out →
      ∀ report run, t.extraction opts hashes stop out s = (.ok report, run) →
        report.aborted = false → run.sink.file = run.digests.fed := by
  intro h
  obtain ⟨report, run, hrun, haborted⟩ := halfDone_run 1
  have heq := h Unit someHashes holesTarget resumeOptions never (halfDone 1) () holesTarget_sound
    (halfDone_within 1) report run hrun haborted
  have hne : (holesTarget.extraction resumeOptions someHashes never (halfDone 1) ()).2.sink.file ≠
      (holesTarget.extraction resumeOptions someHashes never (halfDone 1) ()).2.digests.fed := by
    decide +kernel
  rw [hrun] at hne
  exact hne heq

end Extract
end ZvolRescue
