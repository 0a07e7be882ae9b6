import ZvolRescue.Topology.Pool
import ZvolRescue.Zio.Reader

/-!
# From the tree of a label to the vdevs of the reader
-/

namespace ZvolRescue

namespace Draid

open Lib Ondisk

def DraidError.text : DraidError → String
  | noMap c => s!"no dRAID permutation map for {c} children"
  | geometry s => s!"dRAID geometry: {s}"
  | mapChecksum children expected got =>
    s!"dRAID permutation map for {children} children has checksum {hex got.toNat}, " ++
      s!"expected {hex expected.toNat}"

/-- A number of 64 bits, with an optional plus sign. -/
def parseU64 (text : List Char) : Option Nat :=
  let digits : List Char :=
    match text with
    | '+' :: digits => digits
    | digits => digits
  let n := digits.foldl (fun n c => 10 * n + (c.toNat - 48)) 0
  if digits ≠ [] ∧ digits.all Char.isDigit ∧ n < word then some n else none

/-- The index in the name of a distributed spare, such as `draid1-0-2`. -/
def spareIdFromName (name : String) : Option Nat :=
  parseU64 (name.toList.reverse.takeWhile (· ≠ '-')).reverse

end Draid

namespace Zio

open Ondisk Draid
open ZvolRescue.Topology (Member)

/-- `{path:?}`. -/
def pathText (path : Option String) : String :=
  match path with
  | some path => "Some(" ++ path.quote ++ ")"
  | none => "None"

namespace Node

/-- The vdev of this tree, over those of its children. -/
def ofTree (tree : VdevNode) (members : List Member) (ashift : Nat) (children : List Node) :
    Node :=
  if tree.kind = "dspare" then
    match tree.path.bind spareIdFromName with
    | some spareId => dspare spareId
    | none => unsupported s!"dspare {pathText tree.path}"
  else if tree.children.isEmpty then
    leaf ((members.find? (fun m => m.guid = tree.guid)).bind Member.present) tree.guid
  else
    let ashift := (tree.ashift.filter (fun a => a < 2 ^ 32)).getD ashift
    -- A spare and a replacing vdev are mirrors of the old child and the new one.
    if tree.kind = "mirror" ∨ tree.kind = "spare" ∨ tree.kind = "replacing" then mirror children
    else if tree.kind = "draid" then
      match Config.new (tree.draidNdata.getD 0) (tree.nparity.getD 0) (tree.draidNspares.getD 0)
        tree.children.length (tree.draidNgroups.getD 0) with
      | .ok cfg => draid cfg ashift children
      | .error e => unsupported s!"draid ({e.text})"
    else if tree.kind = "raidz" then raidz (tree.nparity.getD 1) ashift children
    else unsupported tree.kind

mutual

def fromTree (members : List Member) (ashift : Nat) : VdevNode → Node
  | tree@{ children, .. } => ofTree tree members ashift (fromTrees members ashift children)

def fromTrees (members : List Member) (ashift : Nat) : List VdevNode → List Node
  | [] => []
  | tree :: trees => fromTree members ashift tree :: fromTrees members ashift trees

end

theorem fromTrees_eq (members : List Member) (ashift : Nat) (trees : List VdevNode) :
    fromTrees members ashift trees = trees.map (fromTree members ashift) := by
  induction trees with
  | nil => rfl
  | cons tree trees ih => rw [fromTrees, ih, List.map_cons]

theorem fromTree_eq (members : List Member) (ashift : Nat) (tree : VdevNode) :
    fromTree members ashift tree =
      ofTree tree members ashift (tree.children.map (fromTree members ashift)) := by
  obtain ⟨⟩ := tree
  rw [fromTree, fromTrees_eq]

end Node

end Zio
end ZvolRescue
