import ZvolRescue.Dmu.Object
import ZvolRescue.Extract.Sink
import ZvolRescue.Source.Salvage

/-!
# Extracting a volume

`extractFrom` visits the blocks of a volume's data object in order.  What a block gives is
read first (`readVolumeBlock`); what that does to the sink, the digests and the report is
`Run.record`.
-/

namespace ZvolRescue
namespace Extract

open Lib Ondisk Source Zio Dmu

/-- What to do with a block that cannot be read. -/
inductive OnError where
  /-- Write zeros, record the range, continue. -/
  | zero
  /-- Stop at the first unreadable block. -/
  | abort
  deriving DecidableEq, Repr

/-- One unreadable range. -/
structure BadRange where
  offset : Nat
  len : Nat
  blkid : Nat
  reason : String
  deriving DecidableEq, Repr

/-- Outcome of an extraction. -/
structure Report where
  volsize : Nat
  blocksize : Nat
  blocksTotal : Nat
  blocksRead : Nat
  blocksHoles : Nat
  /-- Blocks written as zeros because they could not be read. -/
  blocksZeroed : Nat
  /-- Blocks written with only their unreadable sectors zeroed. -/
  blocksSalvaged : Nat
  bytesWritten : Nat
  bad : List BadRange
  aborted : Bool
  stoppedByMedium : Option String
  /-- The block that was next when the extraction was asked to stop. -/
  interruptedAt : Option Nat
  sha256 : String
  sha1 : Option String
  md5 : Option String
  deriving DecidableEq, Repr

/-! ## Reading a block -/

section Reading

variable {m : Type → Type} [Monad m]

/-- What a salvage of a block that could not be read whole came to. -/
inductive Salvaged where
  /-- Every sector read on retry and the block verifies. -/
  | whole (data : List UInt8)
  /-- Some sectors are gone. -/
  | partly (data : List UInt8) (ranges : List (Nat × Nat))

/-- The copy that lost the least, the first one where several did; a copy that lost nothing
ends the search. -/
def bestSalvage (reader : PoolReader m) (psize : Nat) :
    Option Salvage → List Dva → m (Option Salvage)
  | best, [] => pure best
  | best, dva :: rest => do
    match ← reader.salvageDva dva psize with
    | .error _ => bestSalvage reader psize best rest
    | .ok found =>
      let better := match best with
        | none => true
        | some b => decide (lostBytes found.2 < lostBytes b.2)
      let best := if better then some found else best
      if lostBytes found.2 = 0 then pure best else bestSalvage reader psize best rest

/-- Keep what a member still gives of an uncompressed, unencrypted block it refused. -/
def salvage (reader : PoolReader m) (bp : BlkPtr) (e : ReadError) : m (Option Salvaged) :=
  match e with
  | .io _ =>
    if bp.compression ≠ .off ∨ bp.isEncrypted ∨ bp.embeddedPayload.isSome then pure none
    else do
      match ← bestSalvage reader bp.psize none bp.dvas with
      | none => pure none
      | some (data, []) => do
        -- Only a checksum makes a read that happened to work a block.
        let v ← reader.verify bp data
        pure (if v = .ok then some (.whole data) else none)
      | some (data, bad) => pure (some (.partly data bad))
  | _ => pure none

/-- Why an I/O failure on this block was not salvaged. -/
def whyNotSalvaged (reader : PoolReader m) (bp : BlkPtr) : m String :=
  if bp.isEncrypted then
    pure "ciphertext cannot be decrypted in part, so the whole block is zeros"
  else if bp.compression ≠ .off then
    pure s!"compressed ({bp.compression.name}): a partial block cannot be decompressed, so the whole block is zeros"
  else
    match bp.dvas with
    | [] => pure "not salvaged"
    | dva :: _ => do
      match ← reader.salvageDva dva bp.psize with
      | .error e => pure s!"not salvaged: {e.text}"
      | .ok _ => pure "not salvaged"

/-- What a block of the volume gave. -/
inductive BlockRead where
  | hole
  /-- Read, at once or whole on a retry. -/
  | data (bytes : List UInt8)
  /-- Read but for some sectors. -/
  | partly (bytes : List UInt8) (ranges : List (Nat × Nat)) (reason : String)
  | lost (reason : String)
  /-- A device's refusal or `OnError.abort` ends the extraction here. -/
  | stopped (reason : String) (medium : Bool)
  deriving DecidableEq, Repr

/-- The failure of a block, once nothing stops the extraction. -/
def readFailed (reader : PoolReader m) (bp : Option BlkPtr) (e : ReadError) : m BlockRead :=
  match bp with
  | none => pure (.lost e.text)
  | some bp => do
    match ← salvage reader bp e with
    | some (.whole data) => pure (.data data)
    | some (.partly data ranges) =>
      pure (.partly data ranges
        s!"sector(s) unreadable: {e.text}; the rest of the block was read and kept unverified (the checksum covers the whole block)")
    | none =>
      match e with
      | .io _ => do
        let why ← whyNotSalvaged reader bp
        pure (.lost s!"{e.text}; {why}")
      | _ => pure (.lost e.text)

def readVolumeBlock (obj : ObjectReader m) (onError : OnError) (blkid : Nat) : m BlockRead := do
  let located ← obj.locate blkid
  let result : Except ReadError (Option (List UInt8)) ← match located with
    | .ok none => pure (.ok none)
    | .ok (some bp) => Except.map (fun b => some b.data) <$> obj.reader.readBlock bp
    | .error e => pure (.error e)
  match result with
  | .ok none => pure .hole
  | .ok (some data) => pure (.data data)
  | .error e =>
    match e with
    | .medium true _ => pure (.stopped e.text true)
    | _ =>
      if onError = .abort then pure (.stopped e.text false)
      else readFailed obj.reader (located.toOption.bind id) e

end Reading

/-! ## The run -/

/-- What an extraction carries from block to block; `calls` are the calls of `progress`. -/
structure Run (τ : Type) where
  report : Report
  digests : Digests
  sink : τ
  /-- How far the image has been hashed. -/
  hashedTo : Nat
  calls : List (Nat × Nat)

/-- What becomes of the run at a block. -/
inductive Visited (τ : Type) where
  | next (run : Run τ)
  /-- The loop ends here. -/
  | broke (run : Run τ)
  /-- The sink failed. -/
  | failed (e : ReadError) (run : Run τ)

variable {τ : Type}

/-- The ranges of a salvaged block as the report has them: clipped to the `take` bytes of
the block that lie inside the volume. -/
def clipRanges (take : Nat) : List (Nat × Nat) → List (Nat × Nat)
  | [] => []
  | (start, len) :: rest =>
    if start ≥ take then [] else (start, min len (take - start)) :: clipRanges take rest

def zeros (n : Nat) : List UInt8 := List.replicate n 0

namespace Run

/-- The sink after a write, or why it failed. -/
def write (sink : BlockSink τ) (offset : Nat) (bytes : List UInt8) (run : Run τ)
    (done : Run τ → Run τ) : Visited τ :=
  match sink.writeAt offset bytes run.sink with
  | .error e => .failed (.io e) run
  | .ok s => .next (done { run with sink := s, digests := run.digests.update bytes })

/-- Take what block `blkid` gave into the run. -/
def record (sink : BlockSink τ) (blkid : Nat) (read : BlockRead) (run : Run τ) : Visited τ :=
  let bs := run.report.blocksize
  let offset := mul64 blkid bs
  let take := min (sub64 run.report.volsize offset) bs
  let r := run.report
  let advance := fun (r : Report) (run : Run τ) =>
    { run with
      report := r
      hashedTo := offset + take
      calls := run.calls ++ [(blkid + 1, r.blocksTotal)] }
  match read with
  | .hole =>
    .next (advance { r with blocksHoles := r.blocksHoles + 1 }
      { run with digests := run.digests.update (zeros take) })
  | .data bytes =>
    run.write sink offset ((setLen bytes bs).take take) (advance
      { r with blocksRead := r.blocksRead + 1, bytesWritten := r.bytesWritten + take })
  | .partly bytes ranges reason =>
    let kept := clipRanges take ranges
    run.write sink offset ((setLen bytes bs).take take) (advance
      { r with
        blocksSalvaged := r.blocksSalvaged + 1
        bytesWritten := r.bytesWritten + sub64 take (lostBytes kept)
        bad := r.bad ++ kept.map (fun p =>
          { offset := offset + p.1, len := p.2, blkid, reason }) })
  | .lost reason =>
    .next (advance
      { r with
        blocksZeroed := r.blocksZeroed + 1
        bad := r.bad ++ [{ offset, len := take, blkid, reason }] }
      { run with digests := run.digests.update (zeros take) })
  | .stopped reason medium =>
    .broke { run with
      report := { r with
        bad := r.bad ++ [{ offset, len := take, blkid, reason }]
        aborted := true
        stoppedByMedium := if medium then some reason else none } }

/-- The run that is about to read its first block. -/
def start (volsize bs total startBlock : Nat) (digests : Digests) (s : τ) : Run τ :=
  { report :=
      { volsize
        blocksize := bs
        blocksTotal := total
        blocksRead := 0
        blocksHoles := 0
        blocksZeroed := 0
        blocksSalvaged := 0
        bytesWritten := 0
        bad := []
        aborted := false
        stoppedByMedium := none
        interruptedAt := none
        sha256 := ""
        sha1 := none
        md5 := none }
    digests
    sink := s
    hashedTo := min (mul64 startBlock bs) volsize
    calls := [] }

/-- Hash what lies past the last block and set the length, unless the run was aborted; then
the digests are taken. -/
def close (hashes : ImageHashes) (sink : BlockSink τ) (run : Run τ) :
    Except ReadError Report × Run τ :=
  let run := if run.report.aborted then run
    else { run with
      digests := run.digests.update (zeros (sub64 run.report.volsize run.hashedTo)) }
  let done := run.digests.finish hashes
  let report := { run.report with sha256 := done.sha256, sha1 := done.sha1, md5 := done.md5 }
  if run.report.aborted then (.ok report, run)
  else match sink.finish run.report.volsize run.sink with
    | .error e => (.error (.io e), run)
    | .ok s => (.ok report, { run with sink := s })

end Run

section Loop

variable {m : Type → Type} [Monad m]

/-- Visit `left` blocks from `blkid` on; `stop` says where the interrupt is seen. -/
def visitBlocks (read : Nat → m BlockRead) (sink : BlockSink τ) (stop : Nat → Bool) :
    (left blkid : Nat) → Run τ → m (Except ReadError Unit × Run τ)
  | 0, _, run => pure (.ok (), run)
  | left + 1, blkid, run =>
    if stop blkid then
      pure (.ok (), { run with report := { run.report with interruptedAt := some blkid } })
    else do
      let r ← read blkid
      match run.record sink blkid r with
      | .next run => visitBlocks read sink stop left (blkid + 1) run
      | .broke run => pure (.ok (), run)
      | .failed e run => pure (.error e, run)

/-- Blocks of the object that lie inside the volume. -/
def blocksTotal (d : DnodePhys) (volsize : Nat) : Nat :=
  min (add64 d.maxblkid 1) (divCeil volsize d.datablksz)

/-- Extract the blocks from `startBlock` on, with `digests` already fed the ones before. -/
def extractFrom (hashes : ImageHashes) (obj : ObjectReader m) (volsize : Nat)
    (sink : BlockSink τ) (onError : OnError) (startBlock : Nat) (digests : Digests)
    (stop : Nat → Bool) (s : τ) : m (Except ReadError Report × Run τ) :=
  let bs := obj.dnode.datablksz
  let total := blocksTotal obj.dnode volsize
  let run := Run.start volsize bs total startBlock digests s
  if bs = 0 then pure (.error (.io "volume data object has zero block size"), run)
  else do
    match ← visitBlocks (readVolumeBlock obj onError) sink stop (total - startBlock) startBlock run with
    | (.error e, run) => pure (.error e, run)
    | (.ok (), run) => pure (run.close hashes sink)

end Loop

end Extract
end ZvolRescue
