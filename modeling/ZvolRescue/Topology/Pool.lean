import ZvolRescue.Lib.Keyed
import ZvolRescue.Lib.Newest
import ZvolRescue.Lib.Ranked
import ZvolRescue.Ondisk.LabelConfig
import ZvolRescue.Scan.Vdev

/-!
# Assembling pools

The labels of the scanned devices are grouped by pool, and the newest label that carries a
top-level vdev describes it.  A device whose label does not describe part of the committed
configuration is set aside as stale.
-/

namespace ZvolRescue

namespace Scan

open Ondisk

def LabelScan.typed (l : LabelScan) : Option LabelConfig := l.config.map LabelConfig.fromNvlist

/-- The configuration of the label to trust. -/
def DeviceScan.config (s : DeviceScan) : Option LabelConfig :=
  s.bestLabel.bind (fun i => s.labels[i]?.bind LabelScan.typed)

end Scan

namespace Topology

open Lib Ondisk Scan

/-- A leaf, and the scanned device that is it, if one is. -/
structure Member where
  guid : Nat
  path : Option String
  present : Option Nat
  deriving DecidableEq, Repr

structure TopVdev where
  id : Nat
  guid : Nat
  name : String
  kind : String
  nparity : Option Nat
  ashift : Option Nat
  members : List Member
  tree : VdevNode

/-- A scanned device that is left out of the topology. -/
structure StaleMember where
  device : Nat
  guid : Option Nat
  txg : Option Nat
  reason : String
  deriving DecidableEq, Repr

structure PoolAssembly where
  name : String
  guid : Nat
  state : Option Nat
  txg : Option Nat
  vdevChildren : Option Nat
  featuresForRead : List String
  tops : List TopVdev
  removedTops : List Nat
  hosts : List (Option Nat × Option String)
  devices : List Nat
  stale : List StaleMember

/-- A scanned device and the configuration on it. -/
abbrev Entry := Nat × LabelConfig

/-- The devices that carry the configuration of a pool. -/
def configs (scans : List (Option DeviceScan)) : List Entry :=
  (scans.zipIdx.filterMap (fun s => (s.1.bind DeviceScan.config).map (fun c => (s.2, c)))).filter
    (fun e => e.2.poolGuid.isSome)

def poolGuidOf (e : Entry) : Nat := e.2.poolGuid.getD 0

/-- The transaction group of a label, or zero. -/
def txgOf (e : Entry) : Nat := e.2.txg.getD 0

def stale (e : Entry) (reason : String) : StaleMember :=
  { device := e.1, guid := e.2.guid, txg := e.2.txg, reason }

/-! ## Top-level vdevs -/

/-- A label of transaction group 0 was never committed, and describes nothing. -/
def uncommitted (entries : List Entry) : List StaleMember :=
  (entries.filter (fun e => txgOf e = 0)).map (fun e => stale e
    ("label txg 0: device was being attached/replaced, " ++
      "never part of a committed configuration"))

/-- The trees that committed labels describe, with the transaction groups of the labels. -/
def described (entries : List Entry) : List (Nat × VdevNode) :=
  (entries.filter (fun e => txgOf e ≠ 0)).filterMap (fun e =>
    e.2.tree.map (fun tree => (txgOf e, tree)))

/-- The newest description of every top-level vdev, by their GUIDs in ascending order. -/
def topsByGuid (entries : List Entry) : List (Nat × VdevNode) :=
  (sortedKeys (fun t => t.2.guid) (described entries)).filterMap (fun guid =>
    firstMax Prod.fst ((described entries).filter (fun t => t.2.guid = guid)))

/-- The GUID of the newest top-level vdev of an id. -/
def ownerOfId (tops : List (Nat × VdevNode)) (id : Nat) : Option Nat :=
  (firstMax Prod.fst (tops.filter (fun t => t.2.id = id))).map (fun t => t.2.guid)

/-- An older top-level vdev of the same id was replaced or removed. -/
def superseded (tops : List (Nat × VdevNode)) (t : Nat × VdevNode) : Bool :=
  ownerOfId tops t.2.id ≠ some t.2.guid

def supersededMembers (entries : List Entry) (tops : List (Nat × VdevNode)) : List StaleMember :=
  (tops.filter (superseded tops)).flatMap (fun t =>
    (entries.filter (fun e => e.2.topGuid = some t.2.guid)).map (fun e => stale e
      (s!"label txg {t.1} describes top-level vdev #{t.2.id} (guid {hex t.2.guid}) " ++
        "superseded by a newer label")))

def liveTops (tops : List (Nat × VdevNode)) : List (Nat × VdevNode) :=
  tops.filter (fun t => !superseded tops t)

/-! ## Members -/

/-- The tree names this leaf. -/
def named (tree : VdevNode) (leaf : Nat) : Bool :=
  tree.guid = leaf ∨ tree.leaves.any (fun l => l.guid = leaf)

/-- The newest configuration of the top-level vdev no longer has the leaf of this label. -/
def detached (tops : List (Nat × VdevNode)) (e : Entry) : Option StaleMember :=
  match e.2.topGuid, e.2.guid with
  | some topGuid, some leaf =>
    match tops.find? (fun t => t.2.guid = topGuid) with
    | some t =>
      if named t.2 leaf then none
      else some (stale e (s!"label txg {txgOf e} names leaf {hex leaf} that top-level vdev " ++
        s!"#{t.2.id}'s newest configuration (txg {t.1}) no longer has: detached or replaced"))
    | none => none
  | _, _ => none

def isStale (stale : List StaleMember) (device : Nat) : Bool :=
  stale.any (fun m => m.device = device)

def setAside (tops : List (Nat × VdevNode)) (stale : List StaleMember) (e : Entry) :
    List StaleMember :=
  if isStale stale e.1 then stale else stale ++ (detached tops e).toList

/-- Every device that is left out of the topology. -/
def staleMembers (entries : List Entry) : List StaleMember :=
  let tops := topsByGuid entries
  entries.foldl (setAside (liveTops tops))
    (uncommitted entries ++ supersededMembers entries tops)

/-- The first device that is not stale whose label is of this leaf. -/
def leafOwner (entries : List Entry) (stale : List StaleMember) (leaf : Nat) : Option Nat :=
  ((entries.filter (fun e => !isStale stale e.1)).find? (fun e => e.2.guid = some leaf)).map
    Prod.fst

def topVdev (owner : Nat → Option Nat) (tree : VdevNode) : TopVdev :=
  { id := tree.id
    guid := tree.guid
    name := tree.displayName
    kind := tree.kind
    nparity := tree.nparity
    ashift := tree.ashift
    members := tree.leaves.map (fun leaf =>
      { guid := leaf.guid, path := leaf.path, present := owner leaf.guid })
    tree }

def assembleTops (entries : List Entry) : List TopVdev :=
  sortByKey TopVdev.id ((liveTops (topsByGuid entries)).map (fun t =>
    topVdev (leafOwner entries (staleMembers entries)) t.2))

/-- The pool of the devices that carry its GUID. -/
def assemblePool (guid : Nat) (entries : List Entry) : PoolAssembly :=
  let newest := (lastMax txgOf entries).map Prod.snd
  { name := (newest.bind LabelConfig.name).getD ""
    guid
    state := newest.bind LabelConfig.state
    txg := (entries.filterMap (fun e => e.2.txg)).max?
    vdevChildren := newest.bind LabelConfig.vdevChildren
    featuresForRead := (newest.map LabelConfig.featuresForRead).getD []
    tops := assembleTops entries
    removedTops := []
    hosts := (entries.map (fun e => (e.2.hostid, e.2.hostname))).foldl
      (fun hosts h => if h ∈ hosts then hosts else hosts ++ [h]) []
    devices := entries.map Prod.fst
    stale := staleMembers entries }

/-- The pools of the scanned devices, by their GUIDs in ascending order. -/
def assemble (scans : List (Option DeviceScan)) : List PoolAssembly :=
  let entries := configs scans
  (sortedKeys poolGuidOf entries).map (fun guid =>
    assemblePool guid (entries.filter (fun e => poolGuidOf e = guid)))

end Topology
end ZvolRescue
