import ZvolRescue.Ondisk.Nvlist

/-!
# The configuration in a label

A label describes the top-level vdev that its device is part of, as a tree of vdevs.
-/

namespace ZvolRescue
namespace Ondisk

namespace NvList

def str (l : NvList) (name : String) : Option String :=
  match l.get name with
  | some (.string s) => some s
  | _ => none

def listArray (l : NvList) (name : String) : Option (List NvList) :=
  match l.get name with
  | some (.listArray ls) => some ls
  | _ => none

end NvList

structure VdevNode where
  kind : String
  /-- Index among its siblings. -/
  id : Nat
  guid : Nat
  path : Option String
  ashift : Option Nat
  asize : Option Nat
  metaslabArray : Option Nat
  metaslabShift : Option Nat
  nparity : Option Nat
  draidNdata : Option Nat
  draidNspares : Option Nat
  draidNgroups : Option Nat
  isLog : Bool
  indirectObject : Option Nat
  children : List VdevNode

namespace VdevNode

/-- A node with these children. -/
def ofNvlist (nv : NvList) (children : List VdevNode) : VdevNode :=
  { kind := (nv.str "type").getD "?"
    id := (nv.u64 "id").getD 0
    guid := (nv.u64 "guid").getD 0
    path := nv.str "path"
    ashift := nv.u64 "ashift"
    asize := nv.u64 "asize"
    metaslabArray := nv.u64 "metaslab_array"
    metaslabShift := nv.u64 "metaslab_shift"
    nparity := nv.u64 "nparity"
    draidNdata := nv.u64 "draid_ndata"
    draidNspares := nv.u64 "draid_nspares"
    draidNgroups := nv.u64 "draid_ngroups"
    isLog := (nv.u64 "is_log").getD 0 ≠ 0
    indirectObject := nv.u64 "com.delphix:indirect_object"
    children }

mutual

def fromNvlist : NvList → VdevNode
  | .mk version flags pairs => ofNvlist (.mk version flags pairs) (childrenIn pairs)

/-- The nodes of the first value of the name `children`. -/
def childrenIn : List (String × Value) → List VdevNode
  | [] => []
  | (name, value) :: pairs => if name = "children" then childrenOf value else childrenIn pairs

def childrenOf : Value → List VdevNode
  | .listArray ls => nodesOf ls
  | _ => []

def nodesOf : List NvList → List VdevNode
  | [] => []
  | l :: ls => fromNvlist l :: nodesOf ls

end

mutual

/-- The leaves in order: the node itself if it has no children. -/
def leaves : VdevNode → List VdevNode
  | node@{ children := [], .. } => [node]
  | { children := child :: children, .. } => leavesOf (child :: children)

def leavesOf : List VdevNode → List VdevNode
  | [] => []
  | node :: nodes => node.leaves ++ leavesOf nodes

end

theorem leaves_of_nil {node : VdevNode} (h : node.children = []) : node.leaves = [node] := by
  obtain ⟨⟩ := node
  simp only at h
  subst h
  rw [leaves]

theorem leaves_of_cons {node : VdevNode} (h : node.children ≠ []) :
    node.leaves = node.children.flatMap leaves := by
  have hall : ∀ nodes, leavesOf nodes = nodes.flatMap leaves := by
    intro nodes
    induction nodes with
    | nil => rfl
    | cons node nodes ih => rw [leavesOf, ih, List.flatMap_cons]
  obtain ⟨⟩ := node
  rename_i children
  cases children with
  | nil => exact absurd rfl h
  | cons child children => rw [leaves, hall]

theorem fromNvlist_children (nv : NvList) :
    (fromNvlist nv).children = ((nv.listArray "children").getD []).map fromNvlist := by
  have hnodes : ∀ ls, nodesOf ls = ls.map fromNvlist := by
    intro ls
    induction ls with
    | nil => rfl
    | cons l ls ih => rw [nodesOf, ih, List.map_cons]
  have hin : ∀ pairs, childrenIn pairs =
      (((NvList.mk 0 0 pairs).listArray "children").getD []).map fromNvlist := by
    intro pairs
    induction pairs with
    | nil => rfl
    | cons pair pairs ih =>
      obtain ⟨name, value⟩ := pair
      rw [childrenIn]
      by_cases hname : name = "children"
      · rw [if_pos hname]
        cases value
        all_goals simp [childrenOf, NvList.listArray, NvList.get, NvList.pairs, hname, hnodes]
      · rw [if_neg hname, ih]
        simp [NvList.listArray, NvList.get, NvList.pairs, hname]
  obtain ⟨version, flags, pairs⟩ := nv
  rw [fromNvlist]
  exact hin pairs

/-- `mirror-0`, `raidz2-1`, or the path of a vdev that is a single disk. -/
def displayName (node : VdevNode) : String :=
  if node.kind = "mirror" ∨ node.kind = "raidz" ∨ node.kind = "draid" then
    match node.nparity.filter (fun _ => node.kind ≠ "mirror") with
    | some p => s!"{node.kind}{p}-{node.id}"
    | none => s!"{node.kind}-{node.id}"
  else node.path.getD (node.kind ++ "-" ++ hex node.guid)

end VdevNode

/-- What recovery needs of a configuration. -/
structure LabelConfig where
  version : Option Nat
  name : Option String
  state : Option Nat
  /-- Transaction group in which the label was written. -/
  txg : Option Nat
  poolGuid : Option Nat
  /-- The leaf this label is on. -/
  guid : Option Nat
  /-- The top-level vdev the leaf is part of. -/
  topGuid : Option Nat
  vdevChildren : Option Nat
  hostid : Option Nat
  hostname : Option String
  featuresForRead : List String
  tree : Option VdevNode

def LabelConfig.fromNvlist (nv : NvList) : LabelConfig :=
  { version := nv.u64 "version"
    name := nv.str "name"
    state := nv.u64 "state"
    txg := nv.u64 "txg"
    poolGuid := nv.u64 "pool_guid"
    guid := nv.u64 "guid"
    topGuid := nv.u64 "top_guid"
    vdevChildren := nv.u64 "vdev_children"
    hostid := nv.u64 "hostid"
    hostname := nv.str "hostname"
    featuresForRead := ((nv.list "features_for_read").map (fun l => l.pairs.map Prod.fst)).getD []
    tree := (nv.list "vdev_tree").map VdevNode.fromNvlist }

end Ondisk
end ZvolRescue
