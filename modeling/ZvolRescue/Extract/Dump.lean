import ZvolRescue.Extract.Image
import ZvolRescue.Extract.Resume

/-!
# Dumping a volume

`dumpOne` opens an output, extracts into it and leaves a state for the next run, or none.
`dumpKilled` is what a run leaves that does not get to its end.
-/

namespace ZvolRescue
namespace Extract

open Lib Ondisk Zio Dmu

/-! ## Exit codes -/

namespace Exit

def usage : Nat := 1

/-- A member could not be read. -/
def evidence : Nat := 2

def unrecoverable : Nat := 3

/-- The image is not the whole volume. -/
def part : Nat := 4

def refused : Nat := 5

def interrupted : Nat := 6

/-- A device refused a read, and the run stopped there. -/
def medium : Nat := 7

/-- The status an extraction ends with, given what an earlier volume produced. -/
def afterExtraction (prior : Nat) (aborted : Bool) (blocksZeroed : Nat) : Nat :=
  if aborted ∨ blocksZeroed > 0 then max prior part else prior

end Exit

/-! ## One volume -/

/-- A volume to dump: what names it, and its data object. -/
structure Target (m : Type → Type) where
  dataset : String
  datasetGuid : String
  txg : Nat
  volsize : Nat
  obj : ObjectReader m

/-- The state of an image of this volume, no block of which is done. -/
def Target.expected {m : Type → Type} (t : Target m) : State :=
  { version := 1
    dataset := t.dataset
    datasetGuid := t.datasetGuid
    txg := t.txg
    volsize := t.volsize
    blocksize := t.obj.dnode.datablksz
    blocksDone := 0 }

structure DumpOptions where
  strict : Bool
  resume : Bool
  hash : Extra

def DumpOptions.onError (opts : DumpOptions) : OnError := if opts.strict then .abort else .zero

/-- What is reported of a volume. -/
structure DumpOut where
  dataset : String
  datasetGuid : String
  txg : Nat
  report : Report
  resumedFromBlock : Nat
  strict : Bool
  deriving DecidableEq, Repr

/-- The states written while blocks are visited; `due` says at which calls of `progress` five
seconds have passed since the last one. -/
def checkpoints (expected : State) (due : Nat → Bool) (out : Output) (calls : List (Nat × Nat)) :
    Output :=
  calls.foldl (fun out call =>
    if due call.1 ∧ call.1 < call.2 then out.writeState expected call.1 else out) out

/-- The block a later run starts at. -/
def doneBlocks (report : Report) (startBlock : Nat) : Nat :=
  match report.interruptedAt with
  | some at_ => at_
  | none =>
    match report.bad with
    | [] => startBlock
    | b :: _ => b.blkid

/-- The status of a run that dumped this one volume. -/
def exitCode (report : Report) : Nat :=
  let code := Exit.afterExtraction 0 report.aborted (report.blocksZeroed + report.blocksSalvaged)
  if report.interruptedAt.isSome then max code Exit.interrupted else code

section Dump

variable {m : Type → Type} [Monad m]

def dumpOne (hashes : ImageHashes) (t : Target m) (opts : DumpOptions) (stop due : Nat → Bool)
    (out : Output) : m (Except Nat DumpOut × Output) := do
  let (startBlock, hasher, sink) := openOutput out t.expected opts.hash opts.resume
  let (result, run) ← extractFrom hashes t.obj t.volsize SparseFile.sink opts.onError startBlock
    hasher stop sink
  let out := checkpoints t.expected due { out with image := some run.sink.file } run.calls
  match result with
  | .error _ => pure (.error Exit.unrecoverable, out)
  | .ok report =>
    -- An aborted or interrupted run can be taken up; a whole image needs no state.
    let out :=
      if report.aborted ∨ report.interruptedAt.isSome then
        out.writeState t.expected (doneBlocks report startBlock)
      else out.clearState
    pure (.ok
      { dataset := t.dataset
        datasetGuid := t.datasetGuid
        txg := t.txg
        report
        resumedFromBlock := startBlock
        strict := opts.strict }, out)

/-- Where a run is killed. -/
inductive KillPoint where
  /-- After `n` blocks, `torn` bytes into the write of the next one. -/
  | atBlock (n torn : Nat)
  /-- After the length of the file is set. -/
  | finished

/-- The bytes that are written for a block, if any are. -/
def BlockRead.payload (bs len : Nat) : BlockRead → List UInt8
  | .data b => (setLen b bs).take len
  | .partly b _ _ => (setLen b bs).take len
  | _ => []

/-- A file after `torn` bytes of a block went into it; zeros are not written. -/
def tear (file : List UInt8) (offset torn : Nat) (bytes : List UInt8) : List UInt8 :=
  if allZero bytes ∨ torn = 0 then file else writeAt file offset (bytes.take torn)

/-- What a run leaves that is killed. -/
def dumpKilled (t : Target m) (opts : DumpOptions) (stop due : Nat → Bool) (kill : KillPoint)
    (out : Output) : m Output := do
  let bs := t.obj.dnode.datablksz
  let total := blocksTotal t.obj.dnode t.volsize
  let read := readVolumeBlock t.obj opts.onError
  let (startBlock, hasher, sink) := openOutput out t.expected opts.hash opts.resume
  let left := total - startBlock
  let run := Run.start t.volsize bs total startBlock hasher sink
  match kill with
  | .atBlock n torn => do
    let (_, run) ← visitBlocks read SparseFile.sink stop (min n left) startBlock run
    -- The loop may have ended before block `n`.
    if run.calls.length = n ∧ n < left ∧ stop (startBlock + n) = false then do
      let r ← read (startBlock + n)
      let bytes := r.payload bs (blockLen bs t.volsize (startBlock + n))
      let file := tear run.sink.file ((startBlock + n) * bs) torn bytes
      pure (checkpoints t.expected due { out with image := some file } run.calls)
    else pure (checkpoints t.expected due { out with image := some run.sink.file } run.calls)
  | .finished => do
    let (_, run) ← visitBlocks read SparseFile.sink stop left startBlock run
    let file := if run.report.aborted then run.sink.file else (run.sink.finish t.volsize).file
    pure (checkpoints t.expected due { out with image := some file } run.calls)

end Dump

end Extract
end ZvolRescue
