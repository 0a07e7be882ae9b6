import Mathlib.Data.List.Sort
import ZvolRescue.Draid.Layout
import ZvolRescue.Lib.Choose
import ZvolRescue.Raidz.Map
import ZvolRescue.Raidz.Parity
import ZvolRescue.Zio.Error

/-!
# Reading blocks through a pool

`readBlock` follows a block pointer to the members of the pool: its copies in DVA order,
the sides of a mirror, the rows of a RAID-Z or dRAID with parity reconstruction and the
search over distrusted columns, the segments of a removed vdev, gang headers.  Everything
here is written over a monad `m` and the three operations `Io m` that touch what a reader
changes while it works.
-/

namespace ZvolRescue
namespace Zio

open Lib Ondisk

/-- A vdev as the reader sees it. -/
inductive Node where
  /-- A disk or file; no device when the member was not scanned. -/
  | leaf (device : Option Nat) (guid : Nat)
  /-- Any child holds a full copy. -/
  | mirror (children : List Node)
  /-- Data striped with parity over the children. -/
  | raidz (nparity ashift : Nat) (children : List Node)
  /-- Parity rows placed by a permutation map. -/
  | draid (cfg : Draid.Config) (ashift : Nat) (children : List Node)
  /-- A distributed spare; only read through its dRAID. -/
  | dspare (spareId : Nat)
  | unsupported (kind : String)

/-- The dataset keys that are installed, by what they do to a block of ciphertext. -/
structure Keys where
  decryptBlock : BlkPtr → List UInt8 → Except CryptError (List UInt8)

/-- What a reader knows of its pool, and the code it calls that is not its own. -/
structure Pool where
  tops : List (Nat × Node)
  topAshift : List (Nat × Nat)
  dynamicGang : Bool
  salt : Option (List UInt8)
  keys : Option Keys
  removed : List (Nat × Mapping)
  hashes : Hashes
  codecs : Codecs

/-- The operations of a read that look at or change the reader's state. -/
structure Io (m : Type → Type) where
  readLeaf : Option Nat → (offset size : Nat) → m (Except ReadError (List UInt8))
  /-- One more checksum failed on data as first read. -/
  noteMismatch : m Unit
  /-- The refusal that stopped the run, once one has. -/
  mediumStop : m (Option ReadError)

/-- One way to obtain raw bytes: the single device they came from, and the bytes. -/
abbrev RawCandidate := Option Nat × Except ReadError (List UInt8)

/-- What happened when one copy was tried. -/
structure Attempt where
  dva : Nat
  vdev : Nat
  device : Option Nat
  result : Except ReadError Verify

structure Block where
  data : List UInt8
  verify : Verify
  attempts : List Attempt

/-- The columns of one parity row: parity (`none` when unreadable), data (zeros where
lost), the lost data columns, and the map of the row. -/
structure Columns where
  parity : List (Option (List UInt8))
  data : List (List UInt8)
  lost : List Nat
  map : Raidz.Map

variable {m : Type → Type} [Monad m]

/-! ## Columns and rows -/

/-- A child of a row: a distributed spare, or something whose first copy can be read. -/
inductive Child (m : Type → Type) where
  | dspare (spareId : Nat)
  | other (readFirst : (offset size : Nat) → m (Except ReadError (List UInt8)))

/-- The loop of `readColumn`: a distributed spare stands for another child. -/
def readColumnFrom (cfg : Option Draid.Config) (children : List (Child m)) (c : Raidz.Column) :
    (rounds devidx : Nat) → m (Except ReadError (List UInt8))
  | 0, _ => pure (.error (.unsupported "distributed spare chain loops"))
  | rounds + 1, devidx =>
    match children[devidx]? with
    | none => pure (.error (.unknownVdev (devidx % 2 ^ 32)))
    | some (.dspare spareId) =>
      match cfg with
      | some cfg => readColumnFrom (some cfg) children c rounds (cfg.spareChild spareId c.offset)
      | none => pure (.error (.unsupported "dspare outside dRAID"))
    | some (.other readFirst) => readFirst c.offset c.size

def readColumn (cfg : Option Draid.Config) (children : List (Child m)) (c : Raidz.Column) :
    m (Except ReadError (List UInt8)) :=
  -- An empty column keeps its place in the parity equations.
  if c.size = 0 then pure (.ok [])
  else readColumnFrom cfg children c children.length c.devidx

/-- The columns of a row from what the reads of its data columns gave. -/
def Columns.ofReads (map : Raidz.Map) (reads : List (Except ReadError (List UInt8))) : Columns :=
  { parity := List.replicate map.nparity none
    data := List.zipWith
      (fun c read =>
        match read with
        | .ok b => b
        | .error _ => List.replicate c.size 0)
      map.data reads
    lost := (List.range reads.length).filter (fun i =>
      match reads[i]? with
      | some (.error _) => true
      | _ => false)
    map := map }

/-- Read the data columns of a row; its parity is left unread. -/
def readRow (cfg : Option Draid.Config) (children : List (Child m)) (map : Raidz.Map) :
    m Columns := do
  let reads ← map.data.mapM (readColumn cfg children)
  pure (Columns.ofReads map reads)

/-- Read the parity columns that have not been read. -/
def readParity (cfg : Option Draid.Config) (children : List (Child m)) (row : Columns) :
    m Columns := do
  let parity ← row.parity.zipIdx.mapM (fun p =>
    match p.1, row.map.parity[p.2]? with
    | some b, _ => pure (some b)
    | none, none => pure none
    | none, some c => Except.toOption <$> readColumn cfg children c)
  pure { row with parity := parity }

/-- A row that lost a column needs its parity. -/
def readParityIfLost (cfg : Option Draid.Config) (children : List (Child m)) (row : Columns) :
    m Columns :=
  if row.lost = [] then pure row else readParity cfg children row

def Columns.available (row : Columns) : Nat := (row.parity.filter Option.isSome).length

/-- `reconstruct: {e:?}`. -/
def reconstructText : Raidz.ReconstructError → String
  | .tooManyMissing missing parities =>
    s!"reconstruct: TooManyMissing \x7b missing: {missing}, parities: {parities} \x7d"
  | .singular => "reconstruct: Singular"

/-- The data columns of a row, with the lost ones rebuilt. -/
def Columns.rebuilt (row : Columns) : Except ReadError (List (List UInt8)) :=
  if row.lost = [] then .ok row.data
  else match Raidz.reconstruct row.data row.parity row.lost with
    | .ok data => .ok data
    | .error e => .error (.unrecoverable (reconstructText e))

/-- Whole rows, one after another; the first that cannot be rebuilt ends it. -/
def wholeRows (cfg : Option Draid.Config) (children : List (Child m)) :
    List Columns → m (Except ReadError (List UInt8))
  | [] => pure (.ok [])
  | row :: rows => do
    let row ← readParityIfLost cfg children row
    match row.rebuilt with
    | .error e => pure (.error e)
    | .ok data => do
      match ← wholeRows cfg children rows with
      | .error e => pure (.error e)
      | .ok rest => pure (.ok (data.flatten ++ rest))

/-! ## Unverified reads under a vdev -/

/-- `size` rounded up to a sector. -/
def paddedSize (size ashift : Nat) : Nat :=
  mul64 (divCeil size (shl64 1 ashift)) (shl64 1 ashift)

namespace Node

def children : Node → List Node
  | mirror children | raidz _ _ children | draid _ _ children => children
  | _ => []

def cfg : Node → Option Draid.Config
  | draid cfg _ _ => some cfg
  | _ => none

/-- The maps of the parity rows that hold `size` bytes at `offset`. -/
def rowMaps (node : Node) (offset size : Nat) : List Raidz.Map :=
  match node with
  | raidz nparity ashift children =>
    [Raidz.map offset (paddedSize size ashift) ashift children.length nparity]
  | draid cfg ashift _ => cfg.map offset (paddedSize size ashift) ashift
  | _ => []

/-- A child as `readColumn` meets it. -/
def asChild (node : Node) (readFirst : (offset size : Nat) → m (Except ReadError (List UInt8))) :
    Child m :=
  match node with
  | dspare spareId => .dspare spareId
  | _ => .other readFirst

end Node

/-- The parity rows that hold `size` bytes at `offset` under a RAID-Z or dRAID. -/
def readRows (node : Node) (children : List (Child m)) (offset size : Nat) : m (List Columns) :=
  (node.rowMaps offset size).mapM (readRow node.cfg children)

/-- The one unverified way to read under a RAID-Z or dRAID. -/
def readStripe (node : Node) (children : List (Child m)) (offset size : Nat) :
    m (List RawCandidate) := do
  let rows ← readRows node children offset size
  match ← wholeRows node.cfg children rows with
  | .error e => pure [(none, .error e)]
  | .ok out => pure [(none, .ok (out.take size))]

mutual

/-- Every independent, unverified way to read `size` bytes at `offset` under a vdev. -/
def readCandidates (io : Io m) : Node → (offset size : Nat) → m (List RawCandidate)
  | .leaf device _, offset, size => do
    let read ← io.readLeaf device offset size
    pure [(device, read)]
  | .mirror children, offset, size => readCandidatesOfAll io children offset size
  | .raidz nparity ashift children, offset, size =>
    readStripe (.raidz nparity ashift children) (childrenOf io children) offset size
  | .draid cfg ashift children, offset, size =>
    readStripe (.draid cfg ashift children) (childrenOf io children) offset size
  | .dspare _, _, _ =>
    pure [(none, .error (.unsupported "distributed spare read outside its dRAID"))]
  | .unsupported kind, _, _ => pure [(none, .error (.unsupported kind))]

/-- The ways of all children of a mirror. -/
def readCandidatesOfAll (io : Io m) : List Node → (offset size : Nat) → m (List RawCandidate)
  | [], _, _ => pure []
  | node :: nodes, offset, size => do
    let here ← readCandidates io node offset size
    let rest ← readCandidatesOfAll io nodes offset size
    pure (here ++ rest)

/-- The children of a row; reading one is `read_first`. -/
def childrenOf (io : Io m) : List Node → List (Child m)
  | [] => []
  | node :: nodes =>
    node.asChild
      (fun offset size =>
        (fun cs => firstOk .noMember (cs.map Prod.snd)) <$> readCandidates io node offset size)
      :: childrenOf io nodes

end

section Children

variable (io : Io m)

/-- `read_first`: the first way to read that succeeds. -/
def readFirst (node : Node) (offset size : Nat) : m (Except ReadError (List UInt8)) :=
  (fun cs => firstOk .noMember (cs.map Prod.snd)) <$> readCandidates io node offset size

theorem childrenOf_eq (nodes : List Node) :
    childrenOf io nodes = nodes.map (fun node => node.asChild (readFirst io node)) := by
  induction nodes with
  | nil => rfl
  | cons node nodes ih =>
    rw [childrenOf, ih]
    rfl

end Children

end Zio
end ZvolRescue
