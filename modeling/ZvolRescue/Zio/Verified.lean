import ZvolRescue.Zio.Reader

/-!
# Verified reads

The checksum of the pointer decides between the copies.  `readBlock` takes the first copy
that is accepted and decompresses it.
-/

namespace ZvolRescue
namespace Zio

open Lib Ondisk

variable {m : Type → Type} [Monad m]

namespace Pool

/-- Where a DVA's vdev leads. -/
inductive Where where
  | top (node : Node)
  | removed (mapping : Mapping)

/-- A removed vdev wins over a top-level vdev of the same id. -/
def locateVdev (p : Pool) (vdev : Nat) : Option Where :=
  match p.removed.lookup vdev with
  | some mapping => some (.removed mapping)
  | none => (p.tops.lookup vdev).map .top

/-- The verdict on the bytes of a block. -/
def verdict (p : Pool) (bp : BlkPtr) (raw : List UInt8) : Verify :=
  verifyBlock p.hashes bp.checksum raw bp.endian bp.cksum p.salt
    (bp.usesCrypt && bp.objectType ≠ otObjset)

/-- Verify, and count the mismatches. -/
def verify (p : Pool) (io : Io m) (bp : BlkPtr) (raw : List UInt8) : m Verify :=
  if p.verdict bp raw = .mismatch then do
    io.noteMismatch
    pure .mismatch
  else pure (p.verdict bp raw)

/-! ## Striped reads -/

/-- The bytes of a block, from the data columns of its rows. -/
def assemble (psize : Nat) (rows : List Columns) : List UInt8 :=
  (rows.flatMap (fun row => row.data.flatten)).take psize

/-- Every row with its lost columns rebuilt from parity.  A failure carries the attempt the
source records for it, if it records one. -/
def rebuildRows (cfg : Option Draid.Config) (children : List (Child m)) :
    List Columns → m (Except (Bool × ReadError) (List Columns))
  | [] => pure (.ok [])
  | row :: rows => do
    let row ← readParityIfLost cfg children row
    if row.lost.length > row.available then
      pure (.error (true, .unrecoverable
        s!"{row.lost.length} data column(s) missing, only {row.available} parity column(s) readable"))
    else match row.rebuilt with
      | .error e => pure (.error (false, e))
      | .ok data => do
        match ← rebuildRows cfg children rows with
        | .error e => pure (.error e)
        | .ok rest => pure (.ok ({ row with data := data } :: rest))

/-- One trial of the search: the parity columns in use and the columns taken as missing. -/
structure Trial where
  usable : List (Option (List UInt8))
  missing : List Nat

/-- The columns of a row that read, parity first; `true` marks parity. -/
def readable (row : Columns) : List (Bool × Nat) :=
  ((List.range row.parity.length).filter (fun i => (row.parity.getD i none).isSome)).map
      (fun i => (true, i)) ++
    ((List.range row.data.length).filter (fun i => i ∉ row.lost)).map (fun i => (false, i))

/-- The parity columns less those distrusted. -/
def distrust (parity : List (Option (List UInt8))) (bad : List Nat) :
    List (Option (List UInt8)) :=
  parity.zipIdx.map (fun p => if p.2 ∈ bad then none else p.1)

/-- The trial that distrusts the columns at the indices `combo` of `columns`. -/
def Trial.ofCombo (row : Columns) (columns : List (Bool × Nat)) (combo : List Nat) : Trial :=
  let chosen := combo.filterMap (fun j => columns[j]?)
  { usable := distrust row.parity ((chosen.filter (fun c => c.1)).map Prod.snd)
    missing := (row.lost ++ (chosen.filter (fun c => !c.1)).map Prod.snd).insertionSort (· ≤ ·) }

/-- Something is missing, and there is enough parity for it. -/
def Trial.Solvable (t : Trial) : Prop :=
  t.missing ≠ [] ∧ t.missing.length ≤ (t.usable.filter Option.isSome).length

instance (t : Trial) : Decidable t.Solvable := by unfold Trial.Solvable; infer_instance

/-- The trials of one row, in the order of the search. -/
def trials (row : Columns) : List Trial :=
  let columns := readable row
  let budget := row.available - row.lost.length
  ((List.range (min budget columns.length)).flatMap (fun k =>
    (choose columns.length (k + 1)).map (Trial.ofCombo row columns))).filter
      (fun t => decide t.Solvable)

/-- The rows with one row's data replaced. -/
def withData (rows : List Columns) (r : Nat) (data : List (List UInt8)) : List Columns :=
  rows.modify r (fun row => { row with data := data })

/-- Try the trials of row `r` until the assembled block does not fail its checksum. -/
def tryTrials (p : Pool) (io : Io m) (bp : BlkPtr) (rows : List Columns) (r : Nat)
    (data : List (List UInt8)) : List Trial → m (Option (List UInt8 × Verify))
  | [] => pure none
  | t :: ts =>
    match Raidz.reconstruct data t.usable t.missing with
    | .error _ => tryTrials p io bp rows r data ts
    | .ok rebuilt => do
      let raw := assemble bp.psize (withData rows r rebuilt)
      let v ← p.verify io bp raw
      if v ≠ .mismatch then pure (some (raw, v))
      else tryTrials p io bp rows r data ts

/-- The search, one row at a time; the other rows are kept as read. -/
def search (p : Pool) (io : Io m) (bp : BlkPtr) (rows : List Columns) :
    List (Columns × Nat) → m (Option (List UInt8 × Verify))
  | [] => pure none
  | (row, r) :: rest => do
    match ← tryTrials p io bp rows r row.data (trials row) with
    | some found => pure (some found)
    | none => search p io bp rows rest

/-- The attempts on a copy and what came of it. -/
abbrev Tried := List Attempt × Except ReadError (List UInt8 × Verify)

/-- The block behind a DVA on a RAID-Z or dRAID: lost columns from parity and, if the
checksum still fails, every combination of distrusted columns of one row. -/
def readStriped (p : Pool) (io : Io m) (node : Node) (dva : Dva) (bp : BlkPtr) (i : Nat) :
    m Tried := do
  let children := childrenOf io node.children
  let attempt := fun result => ({ dva := i, vdev := dva.vdev, device := none, result } : Attempt)
  let rows ← readRows node children dva.offset bp.psize
  match ← rebuildRows node.cfg children rows with
  | .error (recorded, e) => pure (if recorded then [attempt (.error e)] else [], .error e)
  | .ok rows => do
    let raw := assemble bp.psize rows
    let v ← p.verify io bp raw
    -- Any verdict but a mismatch ends the read.
    if v ≠ .mismatch then pure ([attempt (.ok v)], .ok (raw, v))
    else do
      let rows ← rows.mapM (readParity node.cfg children)
      match ← p.search io bp rows rows.zipIdx with
      | some (raw, w) => pure ([attempt (.ok v), attempt (.ok w)], .ok (raw, w))
      | none => pure ([attempt (.ok v)], .error .allCopiesBad)

/-! ## Copies on leaves, mirrors and removed vdevs -/

/-- A copy is taken when its checksum verifies or there is nothing to check. -/
def accept (raw : List UInt8) (v : Verify) : Except ReadError (List UInt8 × Verify) :=
  match v with
  | .ok | .notChecked => .ok (raw, v)
  | .unsupported => .error .checksumUnsupported
  | .mismatch => .error .allCopiesBad

/-- The copy on a leaf. -/
def readVerifiedLeaf (p : Pool) (io : Io m) (device : Option Nat) (dva : Dva) (bp : BlkPtr)
    (i : Nat) : m Tried := do
  let attempt := fun result => ({ dva := i, vdev := dva.vdev, device, result } : Attempt)
  match ← io.readLeaf device dva.offset bp.psize with
  | .error e => pure ([attempt (.error e)], .error e)
  | .ok raw => do
    let v ← p.verify io bp raw
    pure ([attempt (.ok v)], accept raw v)

mutual

/-- The block behind a DVA that is not a gang, under a vdev. -/
def readVerified (p : Pool) (io : Io m) (dva : Dva) (bp : BlkPtr) (i : Nat) : Node → m Tried
  | .leaf device _ => p.readVerifiedLeaf io device dva bp i
  | .mirror children => readVerifiedAny p io dva bp i .noMember children
  | .raidz nparity ashift children => p.readStriped io (.raidz nparity ashift children) dva bp i
  | .draid cfg ashift children => p.readStriped io (.draid cfg ashift children) dva bp i
  | .dspare _ =>
    pure ([], .error (.unsupported "distributed spare read outside its dRAID"))
  | .unsupported kind =>
    pure ([{ dva := i, vdev := dva.vdev, device := none, result := .error (.unsupported kind) }],
      .error (.unsupported kind))

/-- The children of a mirror, until one gives the block. -/
def readVerifiedAny (p : Pool) (io : Io m) (dva : Dva) (bp : BlkPtr) (i : Nat)
    (last : ReadError) : List Node → m Tried
  | [] => pure ([], .error last)
  | node :: nodes => do
    match ← readVerified p io dva bp i node with
    | (attempts, .ok found) => pure (attempts, .ok found)
    | (attempts, .error e) => do
      let (more, result) ← readVerifiedAny p io dva bp i (last.moreTelling e) nodes
      pure (attempts ++ more, result)

end

/-- The pieces of a block, the `k`-th candidate of each segment or else its last. -/
def joinWay (k : Nat) : List (List RawCandidate) → Except ReadError (List UInt8)
  | [] => .ok []
  | piece :: per =>
    match piece[min k (piece.length - 1)]? with
    | none => .error .noMember
    | some (_, .error e) => .error e
    | some (_, .ok b) => (joinWay k per).map (b ++ ·)

/-- One way for each copy the destinations offer. -/
def ways (per : List (List RawCandidate)) : List RawCandidate :=
  (List.range ((per.map List.length).foldl max 0)).map (fun k => (none, joinWay k per))

/-- Unverified ways to read a range of a vdev; `remapped` reads a removed one. -/
def candidatesOn (p : Pool) (io : Io m)
    (remapped : (vdev : Nat) → Mapping → (offset size : Nat) → m (List RawCandidate))
    (vdev offset size : Nat) : m (List RawCandidate) :=
  match p.locateVdev vdev with
  | some (.top node) => readCandidates io node offset size
  | some (.removed mapping) => remapped vdev mapping offset size
  | none => pure [(none, .error (.unknownVdev vdev))]

/-- How deep mappings may point at removed vdevs, and gang headers at gang headers. -/
def maxDepth : Nat := 9

/-- Unverified ways to read a range of a removed vdev; `depth` more levels are followed. -/
def remappedCandidates (p : Pool) (io : Io m) :
    (depth vdev : Nat) → Mapping → (offset size : Nat) → m (List RawCandidate)
  | 0, _, _, _, _ =>
    pure [(none, .error (.unrecoverable "indirect mappings nested deeper than 8"))]
  | depth + 1, vdev, mapping, offset, size =>
    match mapping.remap offset size with
    | .error gap => pure [(none, .error (.unmapped vdev gap))]
    | .ok segments =>
      ways <$> segments.mapM (fun s =>
        p.candidatesOn io (remappedCandidates p io depth) s.vdev s.offset s.size)

/-- The candidates of a removed vdev, until one is accepted. -/
def firstVerified (p : Pool) (io : Io m) (dva : Dva) (bp : BlkPtr) (i : Nat) :
    ReadError → List RawCandidate → m Tried
  | last, [] => pure ([], .error last)
  | _, (_, .error e) :: rest => do
    let (more, result) ← firstVerified p io dva bp i e rest
    pure ({ dva := i, vdev := dva.vdev, device := none, result := .error e } :: more, result)
  | _, (_, .ok raw) :: rest => do
    let v ← p.verify io bp raw
    let attempt : Attempt := { dva := i, vdev := dva.vdev, device := none, result := .ok v }
    match accept raw v with
    | .ok found => pure ([attempt], .ok found)
    | .error e => do
      let (more, result) ← firstVerified p io dva bp i e rest
      pure (attempt :: more, result)

/-- The block behind a DVA that names a removed vdev. -/
def readVerifiedRemapped (p : Pool) (io : Io m) (dva : Dva) (mapping : Mapping) (bp : BlkPtr)
    (i : Nat) : m Tried := do
  let candidates ← p.remappedCandidates io maxDepth dva.vdev mapping dva.offset bp.psize
  p.firstVerified io dva bp i .noMember candidates

/-! ## Gang blocks -/

/-- The smallest allocation of a top-level vdev. -/
def minAlloc (p : Pool) (vdev : Nat) : Nat :=
  let ashift := (p.topAshift.lookup vdev).getD 9
  match p.tops.lookup vdev with
  | some (.draid cfg _ _) => shl64 cfg.ndata ashift
  | _ => shl64 1 ashift

/-- How many bytes the gang header behind a pointer may be. -/
def gangHeaderSize (p : Pool) (bp : BlkPtr) : Nat :=
  if !p.dynamicGang then Ondisk.gangHeaderSize
  else max ((bp.dvas.map (fun d => p.minAlloc d.vdev)).min?.getD Ondisk.gangHeaderSize)
    Ondisk.gangHeaderSize

/-- Whether a header verifies against the pointer's first DVA and its birth. -/
def gangHeaderStatus (p : Pool) (bp : BlkPtr) (buf : List UInt8) : ChecksumStatus :=
  verifyGangHeader p.hashes buf bp.dva0.vdev bp.dva0.offset bp.physicalBirthOrLogical
    (bp.usesCrypt && bp.objectType ≠ otObjset)

/-- The first candidate that is a header, cut to 512 bytes if it only verifies so. -/
def pickHeader (p : Pool) (bp : BlkPtr) (headerSize : Nat) :
    ReadError → List RawCandidate → Except ReadError (List UInt8)
  | last, [] => .error last
  | _, (_, .error e) :: rest => pickHeader p bp headerSize e rest
  | _, (_, .ok buf) :: rest =>
    let status := p.gangHeaderStatus bp buf
    let old := buf.take Ondisk.gangHeaderSize
    if status = .ok then .ok buf
    else if headerSize > Ondisk.gangHeaderSize ∧ p.gangHeaderStatus bp old = .ok then .ok old
    else pickHeader p bp headerSize (.gang s!"header checksum {status.asStr}") rest

/-- The children of a gang header, one after another; holes give nothing. -/
def joinChildren (readRaw : BlkPtr → m (Except ReadError (List UInt8))) :
    List BlkPtr → m (Except ReadError (List UInt8))
  | [] => pure (.ok [])
  | child :: rest =>
    if child.isHole then joinChildren readRaw rest
    else do
      match ← readRaw child with
      | .error e => pure (.error e)
      | .ok raw => Except.map (raw ++ ·) <$> joinChildren readRaw rest

/-- The bytes behind a gang pointer; `readRaw` reads the children. -/
def readGangWith (p : Pool) (io : Io m) (readRaw : BlkPtr → m (Except ReadError (List UInt8)))
    (dva : Dva) (bp : BlkPtr) : m (Except ReadError (List UInt8)) := do
  let size := p.gangHeaderSize bp
  let candidates ← p.candidatesOn io (p.remappedCandidates io maxDepth) dva.vdev dva.offset size
  match p.pickHeader bp size .noMember candidates with
  | .error e => pure (.error e)
  | .ok header =>
    match parseGangHeader header bp.endian with
    | .error e => pure (.error (.ofParse e))
    | .ok children => Except.map (List.take bp.psize) <$> joinChildren readRaw children

/-! ## Copies and blocks -/

/-- The copy behind one DVA. -/
def readCopy (p : Pool) (io : Io m) (gang : Dva → BlkPtr → m (Except ReadError (List UInt8)))
    (bp : BlkPtr) (dva : Dva) (i : Nat) : m Tried :=
  match p.locateVdev dva.vdev with
  | none =>
    pure ([{ dva := i, vdev := dva.vdev, device := none, result := .error (.unknownVdev dva.vdev) }],
      .error (.unknownVdev dva.vdev))
  | some location =>
    let attempt := fun result => ({ dva := i, vdev := dva.vdev, device := none, result } : Attempt)
    if dva.gang then do
      match ← gang dva bp with
      | .error e => pure ([attempt (.error e)], .error e)
      | .ok raw => do
        let v ← p.verify io bp raw
        pure ([attempt (.ok v)], accept raw v)
    else
      match location with
      | .top node => readVerified p io dva bp i node
      | .removed mapping => p.readVerifiedRemapped io dva mapping bp i

/-- What is reported once a copy failed: a plain vdev weighs the errors, an unknown vdev or
a gang pointer reports its own. -/
def lastError (p : Pool) (dva : Dva) (last e : ReadError) : ReadError :=
  if dva.gang ∨ (p.locateVdev dva.vdev).isNone then e else last.moreTelling e

/-- The copies in DVA order, until one is accepted. -/
def readCopies (p : Pool) (io : Io m) (gang : Dva → BlkPtr → m (Except ReadError (List UInt8)))
    (bp : BlkPtr) : ReadError → List (Dva × Nat) → m (List Attempt × Except ReadError (List UInt8))
  | last, [] => pure ([], .error last)
  | last, (dva, i) :: rest =>
    if dva.isEmpty then readCopies p io gang bp last rest
    else do
      match ← p.readCopy io gang bp dva i with
      | (attempts, .ok (raw, _)) => pure (attempts, .ok raw)
      | (attempts, .error e) => do
        let (more, result) ← readCopies p io gang bp (p.lastError dva last e) rest
        pure (attempts ++ more, result)

/-- The bytes of a block from any copy that is accepted, before decompression. -/
def readRawVerified (p : Pool) (io : Io m)
    (gang : Dva → BlkPtr → m (Except ReadError (List UInt8))) (bp : BlkPtr) :
    m (List Attempt × Except ReadError (List UInt8)) :=
  p.readCopies io gang bp .noMember bp.dva.zipIdx

/-- The bytes behind a gang pointer; `depth` more levels are followed. -/
def readGang (p : Pool) (io : Io m) :
    (depth : Nat) → Dva → BlkPtr → m (Except ReadError (List UInt8))
  | 0, _, _ => pure (.error (.gang "nesting deeper than 8"))
  | depth + 1, dva, bp =>
    p.readGangWith io (fun child => Prod.snd <$> p.readRawVerified io (readGang p io depth) child)
      dva bp

/-- The first word of a failed read: an algorithm that is missing, then a mismatch. -/
def failure (attempts : List Attempt) (e : ReadError) : ReadError :=
  let verdicts := attempts.filterMap (fun a => a.result.toOption)
  if .unsupported ∈ verdicts then .checksumUnsupported
  else if .mismatch ∈ verdicts then .allCopiesBad
  else e

/-- The block from the bytes that were accepted. -/
def finish (p : Pool) (bp : BlkPtr) (attempts : List Attempt) (raw : List UInt8) :
    Except ReadError Block :=
  let plain : Except ReadError (List UInt8) :=
    if bp.isEncrypted then
      match p.keys with
      | none => .error .encrypted
      | some keys => (keys.decryptBlock bp raw).mapError .crypt
    else .ok raw
  match plain with
  | .error e => .error e
  | .ok plain =>
    match decompress p.codecs bp.compression plain bp.lsize with
    | .error e => .error (.decompress e)
    | .ok data =>
      .ok
        { data
          verify := ((attempts.filterMap (fun a => a.result.toOption)).getLast?).getD .notChecked
          attempts }

/-- The block or the error, once the copies have been tried. -/
def conclude (p : Pool) (bp : BlkPtr) (attempts : List Attempt) :
    Except ReadError (List UInt8) → Except ReadError Block
  | .error e => .error (failure attempts e)
  | .ok raw => p.finish bp attempts raw

/-- Read, verify and decompress the block behind a pointer. -/
def readBlock (p : Pool) (io : Io m) (bp : BlkPtr) (_allowUnverified : Bool) :
    m (Except ReadError Block) :=
  if bp.isHole then pure (.error .hole)
  else
    match bp.embeddedPayload with
    | some payload =>
      pure (match decompress p.codecs bp.compression payload bp.lsize with
        | .error e => .error (.decompress e)
        | .ok data => .ok { data, verify := .notChecked, attempts := [] })
    | none => do
      let (attempts, raw) ← p.readRawVerified io (p.readGang io maxDepth) bp
      match ← io.mediumStop with
      | some stop => pure (.error stop)
      | none => pure (p.conclude bp attempts raw)

end Pool

end Zio
end ZvolRescue
