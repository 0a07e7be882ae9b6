import ZvolRescue.Topology.Binding
import ZvolRescue.Zio.Gang
import ZvolRescue.Zio.Searches
import ZvolRescue.Zio.Soundness
import ZvolRescue.Zio.Tree

/-!
# Reading through a hand-written layout

A layout names the devices of a pool whose labels are gone.  The GUIDs that its leaves are given
are invented; what is read is the device at each place (`assemble_reads`), except that nothing is
read from a top-level vdev of one disk (`disk_unread`).
-/

namespace ZvolRescue
namespace Zio

open Ondisk
open ZvolRescue.Topology (Member TopVdev PoolAssembly)

/-! ## The leaves of a layout -/

mutual

/-- Every leaf of a vdev, in its order. -/
def TopHint.leaves : TopHint → List (Option Nat)
  | { children := [], members, .. } => members
  | { children := child :: children, .. } => leavesOf (child :: children)

def leavesOf : List TopHint → List (Option Nat)
  | [] => []
  | hint :: hints => hint.leaves ++ leavesOf hints

end

/-- A stable GUID that is marked as invented. -/
def syntheticGuid (top leaf : Nat) : Nat :=
  0x1117000000000000 ||| ((top &&& 0xffff) <<< 32) ||| (leaf &&& 0xffffffff)

/-- The leaves so far: their count and the members they are. -/
structure Numbering where
  leaf : Nat
  members : List Member

def Numbering.next (n : Numbering) (top : Nat) (present : Option Nat) : Numbering :=
  { leaf := n.leaf + 1
    members := n.members ++ [{ guid := syntheticGuid top n.leaf, path := none, present }] }

/-! ## The assembly of a layout -/

def diskNode (ashift id guid : Nat) : VdevNode :=
  { kind := "disk", id, guid, path := none, ashift := some ashift, asize := none
    metaslabArray := none, metaslabShift := none, nparity := none, draidNdata := none
    draidNspares := none, draidNgroups := none, isLog := false, indirectObject := none
    children := [] }

/-- The leaves are numbered in vdev order. -/
def diskNodes (ashift top : Nat) : List (Option Nat) → (id : Nat) → Numbering →
    List VdevNode × Numbering
  | [], _, n => ([], n)
  | present :: rest, id, n =>
    let after := diskNodes ashift top rest (id + 1) (n.next top present)
    (diskNode ashift id (syntheticGuid top n.leaf) :: after.1, after.2)

namespace TopHint

/-- The vdev of a hint.  The GUIDs of groups are numbered from the top down. -/
def vdevNode (hint : TopHint) (ashift top id : Nat) (children : List VdevNode) : VdevNode :=
  { kind := hint.kind, id, guid := syntheticGuid top (2 ^ 64 - 1 - id), path := none
    ashift := some ashift, asize := none, metaslabArray := none, metaslabShift := none
    nparity := hint.nparity, draidNdata := hint.draidNdata, draidNspares := hint.draidNspares
    draidNgroups := hint.draidNgroups, isLog := false, indirectObject := none, children }

mutual

/-- One vdev of the tree, and the leaves once its own are numbered. -/
def node (ashift top : Nat) : TopHint → (id : Nat) → Numbering → VdevNode × Numbering
  | hint@{ children := [], members, .. }, id, n =>
    let below := diskNodes ashift top members 0 n
    (hint.vdevNode ashift top id below.1, below.2)
  | hint@{ children := child :: children, .. }, id, n =>
    let below := nodes ashift top (child :: children) 0 n
    (hint.vdevNode ashift top id below.1, below.2)

def nodes (ashift top : Nat) : List TopHint → (id : Nat) → Numbering → List VdevNode × Numbering
  | [], _, n => ([], n)
  | hint :: hints, id, n =>
    let here := node ashift top hint id n
    let after := nodes ashift top hints (id + 1) here.2
    (here.1 :: after.1, after.2)

end

def displayKind (hint : TopHint) : String :=
  if hint.kind = "raidz" ∨ hint.kind = "draid" then
    match hint.nparity with
    | some p => s!"{hint.kind}{p}"
    | none => hint.kind
  else hint.kind

end TopHint

namespace LayoutHints

def topVdev (layout : LayoutHints) (id : Nat) (hint : TopHint) : TopVdev :=
  let below := hint.node layout.ashift id 0 { leaf := 0, members := [] }
  { id
    guid := below.1.guid
    name := s!"{hint.displayKind}-{id}"
    kind := hint.kind
    nparity := hint.nparity
    ashift := some layout.ashift
    members := below.2.members
    tree := below.1 }

def addDevice (devices : List Nat) (m : Member) : List Nat :=
  match m.present with
  | some d => if d ∈ devices then devices else devices ++ [d]
  | none => devices

/-- The layout as the assembly that a reader takes. -/
def assemble (layout : LayoutHints) : PoolAssembly :=
  let tops := layout.tops.zipIdx.map (fun h => layout.topVdev h.2 h.1)
  { name := layout.name.getD "?"
    guid := layout.guid.getD 0
    state := none
    txg := none
    vdevChildren := some layout.tops.length
    featuresForRead := []
    tops
    removedTops := []
    hosts := []
    devices := ((tops.flatMap TopVdev.members).foldl addDevice []).insertionSort (· ≤ ·)
    stale := [] }

/-- The devices that the layout names, in vdev order. -/
def devices (layout : LayoutHints) : List Nat :=
  layout.tops.flatMap (fun t => t.leaves.filterMap id)

end LayoutHints

/-- `PoolReader::new`: of two top-level vdevs of one id the later counts. -/
def Pool.ofAssembly (hashes : Hashes) (codecs : Codecs) (pool : PoolAssembly) : Pool :=
  let ashift := fun t : TopVdev => (t.ashift.filter (fun a => a < 2 ^ 32)).getD 9
  { tops := (pool.tops.map (fun t =>
      (t.id % 2 ^ 32, Node.fromTree t.members (ashift t) t.tree))).reverse
    topAshift := (pool.tops.map (fun t => (t.id % 2 ^ 32, ashift t))).reverse
    dynamicGang := pool.featuresForRead.contains "com.klarasystems:dynamic_gang_header"
    salt := none
    keys := none
    removed := []
    hashes
    codecs }

/-! ## What the layout says -/

namespace TopHint

/-- The vdev that a reader makes of a hint. -/
def group (hint : TopHint) (ashift : Nat) (children : List Node) : Node :=
  if hint.kind = "dspare" then .unsupported s!"dspare {pathText none}"
  else if hint.kind = "mirror" ∨ hint.kind = "spare" ∨ hint.kind = "replacing" then
    .mirror children
  else if hint.kind = "draid" then
    match Draid.Config.new (hint.draidNdata.getD 0) (hint.nparity.getD 0)
        (hint.draidNspares.getD 0) children.length (hint.draidNgroups.getD 0) with
    | .ok cfg => .draid cfg ashift children
    | .error e => .unsupported s!"draid ({e.text})"
  else if hint.kind = "raidz" then .raidz (hint.nparity.getD 1) ashift children
  else .unsupported hint.kind

/-- The devices at their places from `start` on. -/
def leafNodes (top : Nat) : List (Option Nat) → (start : Nat) → List Node
  | [], _ => []
  | device :: rest, start =>
    .leaf device (syntheticGuid top start) :: leafNodes top rest (start + 1)

mutual

/-- The vdev over the devices at their places. -/
def placed (ashift top : Nat) : TopHint → (start : Nat) → Node
  | hint@{ children := [], members, .. }, start => hint.group ashift (leafNodes top members start)
  | hint@{ children := child :: children, .. }, start =>
    hint.group ashift (placedAll ashift top (child :: children) start)

def placedAll (ashift top : Nat) : List TopHint → (start : Nat) → List Node
  | [], _ => []
  | hint :: hints, start =>
    placed ashift top hint start :: placedAll ashift top hints (start + hint.leaves.length)

end

/-- No group of the vdev is empty. -/
inductive Grouped : TopHint → Prop
  | members {hint : TopHint} (children : hint.children = []) (some : hint.members ≠ []) :
    Grouped hint
  | children {hint : TopHint} (some : hint.children ≠ [])
    (grouped : ∀ child ∈ hint.children, Grouped child) : Grouped hint

end TopHint

/-- The members that these leaves are. -/
def numbered (top start : Nat) (leaves : List (Option Nat)) : List Member :=
  (leaves.zipIdx start).map (fun l =>
    { guid := syntheticGuid top l.2, path := none, present := l.1 })

/-- The numbering once these leaves are counted. -/
def Numbering.after (n : Numbering) (top : Nat) (leaves : List (Option Nat)) : Numbering :=
  { leaf := n.leaf + leaves.length, members := n.members ++ numbered top n.leaf leaves }

section Numbered

variable {top start : Nat} {leaves leaves' : List (Option Nat)}

theorem syntheticGuid_eq (top leaf : Nat) : syntheticGuid top leaf =
    2 ^ 48 * 0x1117 + (2 ^ 32 * (top % 2 ^ 16) + leaf % 2 ^ 32) := by
  have htop : (top &&& 0xffff) <<< 32 = 2 ^ 32 * (top % 2 ^ 16) := by
    rw [Nat.shiftLeft_eq, Nat.mul_comm]
    exact congrArg _ (Nat.and_two_pow_sub_one_eq_mod top 16)
  have hleaf : leaf &&& 0xffffffff = leaf % 2 ^ 32 := Nat.and_two_pow_sub_one_eq_mod leaf 32
  rw [syntheticGuid, htop, hleaf, Nat.or_assoc,
    ← Nat.two_pow_add_eq_or_of_lt (Nat.mod_lt _ (by decide)),
    Nat.two_pow_add_eq_or_of_lt (show 2 ^ 32 * (top % 2 ^ 16) + leaf % 2 ^ 32 < 2 ^ 48 by omega)]

theorem syntheticGuid_inj {leaf leaf' : Nat} (hleaf : leaf < 2 ^ 32) (hleaf' : leaf' < 2 ^ 32) :
    syntheticGuid top leaf = syntheticGuid top leaf' ↔ leaf = leaf' := by
  rw [syntheticGuid_eq, syntheticGuid_eq, Nat.mod_eq_of_lt hleaf, Nat.mod_eq_of_lt hleaf']
  omega

theorem numbered_cons (top start : Nat) (device : Option Nat) (leaves : List (Option Nat)) :
    numbered top start (device :: leaves) =
      { guid := syntheticGuid top start, path := none, present := device } ::
        numbered top (start + 1) leaves := rfl

theorem numbered_append : numbered top start (leaves ++ leaves') =
    numbered top start leaves ++ numbered top (start + leaves.length) leaves' := by
  rw [numbered, numbered, numbered, List.zipIdx_append, List.map_append]

theorem Numbering.after_append (n : Numbering) : (n.after top leaves).after top leaves' =
    n.after top (leaves ++ leaves') := by
  simp [Numbering.after, numbered_append, Nat.add_assoc]

/-- Each place has a GUID of its own. -/
theorem find_numbered (hfew : start + leaves.length ≤ 2 ^ 32) {i : Nat} {device : Option Nat}
    (hi : leaves[i]? = some device) :
    ((numbered top start leaves).find? (fun m => m.guid = syntheticGuid top (start + i))).bind
      Member.present = device := by
  induction leaves generalizing start i with
  | nil => cases hi
  | cons head leaves ih =>
    rw [List.length_cons] at hfew
    rw [numbered_cons]
    cases i with
    | zero =>
      rw [List.getElem?_cons_zero, Option.some.injEq] at hi
      rw [Nat.add_zero, List.find?_cons_of_pos (by simp), Option.bind_some, hi]
    | succ i =>
      rw [List.getElem?_cons_succ] at hi
      have hlt : i < leaves.length := (List.getElem?_eq_some_iff.mp hi).1
      have hne : syntheticGuid top start ≠ syntheticGuid top (start + (i + 1)) := by
        rw [Ne, syntheticGuid_inj (by omega) (by omega)]
        omega
      rw [List.find?_cons_of_neg (by simpa using hne),
        show start + (i + 1) = start + 1 + i by omega]
      exact ih (by omega) hi

end Numbered

/-! ## The tree -/

namespace TopHint

variable {ashift top : Nat}

theorem diskNodes_numbering (leaves : List (Option Nat)) (id : Nat) (n : Numbering) :
    (diskNodes ashift top leaves id n).2 = n.after top leaves := by
  induction leaves generalizing id n with
  | nil => simp [diskNodes, Numbering.after, numbered]
  | cons device leaves ih =>
    have hnext : n.next top device = n.after top [device] := rfl
    rw [diskNodes]
    dsimp only
    rw [ih, hnext, Numbering.after_append, List.singleton_append]

mutual

/-- The leaves of a vdev are numbered on in its order. -/
theorem node_numbering : ∀ (hint : TopHint) (id : Nat) (n : Numbering),
    (hint.node ashift top id n).2 = n.after top hint.leaves
  | { children := [], .. }, id, n => by
    rw [node, leaves]
    exact diskNodes_numbering _ 0 n
  | { children := child :: children, .. }, id, n => by
    rw [node, leaves]
    exact nodes_numbering (child :: children) 0 n

theorem nodes_numbering : ∀ (hints : List TopHint) (id : Nat) (n : Numbering),
    (nodes ashift top hints id n).2 = n.after top (leavesOf hints)
  | [], id, n => by simp [nodes, leavesOf, Numbering.after, numbered]
  | hint :: hints, id, n => by
    rw [nodes, leavesOf]
    dsimp only
    rw [nodes_numbering hints, node_numbering hint, Numbering.after_append]

end

/-- The members are the leaves, in vdev order. -/
theorem members_topVdev (layout : LayoutHints) (id : Nat) (hint : TopHint) :
    (layout.topVdev id hint).members = numbered id 0 hint.leaves := by
  rw [LayoutHints.topVdev, node_numbering]
  exact List.nil_append _

/-- A member of each GUID is at the place of the leaf. -/
def Found (members : List Member) (top start : Nat) (leaves : List (Option Nat)) : Prop :=
  ∀ (i : Nat) (device : Option Nat), leaves[i]? = some device →
    (members.find? (fun m => m.guid = syntheticGuid top (start + i))).bind Member.present = device

section Reading

variable {members : List Member} {start : Nat}

section Lists

variable (ashift top)

theorem length_diskNodes (leaves : List (Option Nat)) (id : Nat) (n : Numbering) :
    (diskNodes ashift top leaves id n).1.length = leaves.length := by
  induction leaves generalizing id n with
  | nil => rfl
  | cons device leaves ih =>
    rw [diskNodes, List.length_cons, List.length_cons, ih]

theorem length_nodes (hints : List TopHint) (id : Nat) (n : Numbering) :
    (nodes ashift top hints id n).1.length = hints.length := by
  induction hints generalizing id n with
  | nil => rfl
  | cons hint hints ih =>
    rw [nodes, List.length_cons, List.length_cons, ih]

theorem node_of_nil {hint : TopHint} (h : hint.children = []) (id : Nat) (n : Numbering) :
    hint.leaves = hint.members ∧ hint.node ashift top id n =
      (hint.vdevNode ashift top id (diskNodes ashift top hint.members 0 n).1,
        (diskNodes ashift top hint.members 0 n).2) ∧
      ∀ bits start, hint.placed bits top start =
        hint.group bits (leafNodes top hint.members start) := by
  obtain ⟨⟩ := hint
  simp only at h
  subst h
  exact ⟨by rw [leaves], by rw [node], fun _ _ => by rw [placed]⟩

theorem node_of_cons {hint : TopHint} (h : hint.children ≠ []) (id : Nat) (n : Numbering) :
    hint.leaves = leavesOf hint.children ∧ hint.node ashift top id n =
      (hint.vdevNode ashift top id (nodes ashift top hint.children 0 n).1,
        (nodes ashift top hint.children 0 n).2) ∧
      ∀ bits start, hint.placed bits top start =
        hint.group bits (placedAll bits top hint.children start) := by
  obtain ⟨⟩ := hint
  rename_i children
  cases children with
  | nil => exact absurd rfl h
  | cons child children => exact ⟨by rw [leaves], by rw [node], fun _ _ => by rw [placed]⟩

end Lists

theorem Found.left {leaves leaves' : List (Option Nat)}
    (h : Found members top start (leaves ++ leaves')) : Found members top start leaves := by
  intro i device hi
  refine h i device ?_
  rw [List.getElem?_append_left (List.getElem?_eq_some_iff.mp hi).1, hi]

theorem Found.right {leaves leaves' : List (Option Nat)}
    (h : Found members top start (leaves ++ leaves')) :
    Found members top (start + leaves.length) leaves' := by
  intro i device hi
  rw [Nat.add_assoc]
  refine h (leaves.length + i) device ?_
  rw [List.getElem?_append_right (Nat.le_add_right _ _), Nat.add_sub_cancel_left, hi]

theorem fromTree_diskNodes (bits : Nat) {leaves : List (Option Nat)} {id : Nat} {n : Numbering}
    (h : Found members top n.leaf leaves) :
    (diskNodes ashift top leaves id n).1.map (Node.fromTree members bits) =
      leafNodes top leaves n.leaf := by
  induction leaves generalizing id n with
  | nil => rfl
  | cons device leaves ih =>
    rw [diskNodes, leafNodes, List.map_cons, 
      Topology.fromTree_leaf (show "disk" ≠ "dspare" by decide) rfl]
    refine List.cons_eq_cons.mpr ⟨congrArg (Node.leaf · _) (h 0 device rfl), ?_⟩
    rw [← List.singleton_append] at h
    exact ih (n := n.next top device) h.right

/-- The width that a reader takes for a layout. -/
def readerAshift (ashift : Nat) : Nat := if ashift < 2 ^ 32 then ashift else 9

theorem filter_ashift (default : Nat) : ((some ashift).filter (fun a => a < 2 ^ 32)).getD default =
    if ashift < 2 ^ 32 then ashift else default := by
  rw [Option.filter_some]
  by_cases hlt : ashift < 2 ^ 32
  · rw [if_pos (decide_eq_true hlt), if_pos hlt, Option.getD_some]
  · rw [if_neg (by simpa using hlt), if_neg hlt, Option.getD_none]

theorem ofTree_vdevNode (hint : TopHint) {id : Nat} {trees : List VdevNode} {nodes : List Node}
    (hsome : trees ≠ []) (hlength : trees.length = nodes.length) :
    Node.ofTree (hint.vdevNode ashift top id trees) members (readerAshift ashift) nodes =
      hint.group (readerAshift ashift) nodes := by
  have hashift : ((some ashift).filter (fun a => a < 2 ^ 32)).getD (readerAshift ashift) =
      readerAshift ashift := by
    rw [filter_ashift, readerAshift]
    split <;> rfl
  unfold Node.ofTree group vdevNode
  dsimp only
  rw [List.isEmpty_eq_false_iff.mpr hsome, if_neg Bool.false_ne_true, hashift, hlength]
  rfl

theorem fromTree_nodes {hints : List TopHint} (hgrouped : ∀ hint ∈ hints, ∀ (id : Nat)
      (n : Numbering), Found members top n.leaf hint.leaves →
        Node.fromTree members (readerAshift ashift) (hint.node ashift top id n).1 =
          hint.placed (readerAshift ashift) top n.leaf) (id : Nat) (n : Numbering)
    (h : Found members top n.leaf (leavesOf hints)) :
    (nodes ashift top hints id n).1.map (Node.fromTree members (readerAshift ashift)) =
      placedAll (readerAshift ashift) top hints n.leaf := by
  induction hints generalizing id n with
  | nil => rfl
  | cons hint hints ih =>
    rw [leavesOf] at h
    rw [nodes, placedAll, List.map_cons, hgrouped hint List.mem_cons_self id n h.left,
      node_numbering, ih (fun hint hhint => hgrouped hint (List.mem_cons_of_mem _ hhint)) _
      (n.after top hint.leaves) h.right]
    rfl

/-- The reader of the tree reads each place from the device that is named there. -/
theorem Grouped.fromTree {hint : TopHint} (hgrouped : hint.Grouped) :
    ∀ (id : Nat) (n : Numbering), Found members top n.leaf hint.leaves →
      Node.fromTree members (readerAshift ashift) (hint.node ashift top id n).1 =
        hint.placed (readerAshift ashift) top n.leaf := by
  induction hgrouped with
  | @members hint hnil hsome =>
    intro id n h
    obtain ⟨hleaves, hnode, hplaced⟩ := node_of_nil ashift top hnil id n
    have hlength := length_diskNodes ashift top hint.members 0 n
    rw [hleaves] at h
    rw [hnode, hplaced, Node.fromTree_eq, ← fromTree_diskNodes (readerAshift ashift) h]
    refine ofTree_vdevNode hint ?_ (List.length_map _).symm
    rw [← List.length_pos_iff, hlength, List.length_pos_iff]
    exact hsome
  | @children hint hsome _ ih =>
    intro id n h
    obtain ⟨hleaves, hnode, hplaced⟩ := node_of_cons ashift top hsome id n
    have hlength := length_nodes ashift top hint.children 0 n
    rw [hleaves] at h
    rw [hnode, hplaced, Node.fromTree_eq, ← fromTree_nodes ih 0 n h]
    refine ofTree_vdevNode hint ?_ (List.length_map _).symm
    rw [← List.length_pos_iff, hlength, List.length_pos_iff]
    exact hsome

end Reading

end TopHint

/-! ## What is read -/

namespace LayoutHints

open TopHint (readerAshift)

variable {layout : LayoutHints}

theorem foldl_addDevice (members : List Member) {devices : List Nat} (hnodup : devices.Nodup) :
    (members.foldl addDevice devices).Nodup ∧ ∀ d, d ∈ members.foldl addDevice devices ↔
      d ∈ devices ∨ some d ∈ members.map Member.present := by
  induction members generalizing devices with
  | nil => simp [hnodup]
  | cons m members ih =>
    have hadd : (addDevice devices m).Nodup ∧
        ∀ d, d ∈ addDevice devices m ↔ d ∈ devices ∨ some d = m.present := by
      rw [addDevice]
      cases hpresent : m.present with
      | none => simp [hnodup]
      | some d =>
        dsimp only
        by_cases hmem : d ∈ devices
        · rw [if_pos hmem]
          exact ⟨hnodup, fun d' => ⟨Or.inl, fun h => h.elim id (fun h => Option.some.inj h ▸ hmem)⟩⟩
        · rw [if_neg hmem]
          refine ⟨?_, fun d' => by simp⟩
          rw [← List.concat_eq_append]
          exact hnodup.concat hmem
    rw [List.foldl_cons, List.map_cons]
    refine ⟨(ih hadd.1).1, fun d => ?_⟩
    rw [(ih hadd.1).2, hadd.2, List.mem_cons, or_assoc]

theorem present_numbered (top start : Nat) (leaves : List (Option Nat)) :
    (numbered top start leaves).map Member.present = leaves := by
  rw [numbered, List.map_map]
  exact List.zipIdx_map_fst start leaves

theorem getElem?_tops_assemble (t : Nat) : layout.assemble.tops[t]? =
    layout.tops[t]?.map (layout.topVdev t) := by
  rw [assemble, List.getElem?_map, List.getElem?_zipIdx, Option.map_map, Nat.zero_add]
  rfl

theorem map_tops_assemble {β : Type} (f : TopVdev → β) : layout.assemble.tops.map f =
    layout.tops.zipIdx.map (fun h => f (layout.topVdev h.2 h.1)) := by
  rw [assemble, List.map_map]
  rfl

theorem tops_ofAssembly (layout : LayoutHints) (hashes : Hashes) (codecs : Codecs) :
    (Pool.ofAssembly hashes codecs layout.assemble).tops = (layout.tops.zipIdx.map (fun hint =>
      (hint.2 % 2 ^ 32, Node.fromTree (layout.topVdev hint.2 hint.1).members
        (readerAshift layout.ashift) (layout.topVdev hint.2 hint.1).tree))).reverse := by
  rw [Pool.ofAssembly, map_tops_assemble]
  refine congrArg List.reverse (List.map_congr_left (fun hint _ => Prod.ext rfl ?_))
  exact congrArg (fun bits => Node.fromTree _ bits _) (TopHint.filter_ashift 9)

/-- A mirror of a RAID-Z with a missing member and of a disk. -/
def nested : LayoutHints :=
  let hint := fun kind nparity members children =>
    ({ kind, nparity, draidNdata := none, draidNspares := none, draidNgroups := none, members
       children } : TopHint)
  { name := some "tank"
    guid := none
    ashift := 12
    tops := [hint "mirror" none [] [hint "raidz" (some 1) [some 3, none, some 0] [],
      hint "mirror" none [some 1] []]] }

theorem lookup_tops {α : Type} (f : TopHint × Nat → α) {hints : List TopHint} {t : Nat}
    {hint : TopHint} (ht : hints[t]? = some hint) (hcount : hints.length ≤ 2 ^ 32) :
    ((hints.zipIdx.map (fun h => (h.2 % 2 ^ 32, f h))).reverse).lookup t = some (f (hint, t)) := by
  obtain ⟨hlt, rfl⟩ := List.getElem?_eq_some_iff.mp ht
  have hsplit : hints.zipIdx =
      hints.zipIdx.take t ++ (hints[t], t) :: hints.zipIdx.drop (t + 1) := by
    conv_lhs => rw [← List.take_append_drop t hints.zipIdx]
    rw [List.drop_eq_getElem_cons (by simpa using hlt), List.getElem_zipIdx, Nat.zero_add]
  refine List.lookup_eq_some_iff.mpr
    ⟨((hints.zipIdx.drop (t + 1)).map (fun h => (h.2 % 2 ^ 32, f h))).reverse,
      ((hints.zipIdx.take t).map (fun h => (h.2 % 2 ^ 32, f h))).reverse, ?_, ?_⟩
  · conv_lhs => rw [hsplit]
    rw [List.map_append, List.map_cons, List.reverse_append, List.reverse_cons, List.append_assoc,
      List.singleton_append, Nat.mod_eq_of_lt (hlt.trans_le hcount)]
  · intro entry hentry
    obtain ⟨h, hh, rfl⟩ := List.mem_map.mp (List.mem_reverse.mp hentry)
    obtain ⟨i, hi, rfl⟩ := List.mem_iff_getElem.mp hh
    rw [List.length_drop, List.length_zipIdx] at hi
    rw [List.getElem_drop, List.getElem_zipIdx, bne_iff_ne]
    dsimp only
    rw [Nat.mod_eq_of_lt (by omega)]
    omega

section Unread

variable {p : Pool} {io : Io Id} {t : Nat} {kind : String}

/-- No copy is read from a vdev of a kind that is not supported. -/
theorem readCopy_unsupported (htop : p.tops.lookup t = some (.unsupported kind))
    (hremoved : p.removed.lookup t = none) {bp : BlkPtr} {dva : Dva} (hvdev : dva.vdev = t)
    (i : Nat) (found : List UInt8 × Verify) :
    (p.readCopy io (p.readGang io Pool.maxDepth) bp dva i).run.2 ≠ .ok found := by
  have hlocate : p.locateVdev dva.vdev = some (.top (.unsupported kind)) := by
    rw [Pool.locateVdev, hvdev, hremoved, htop]
    rfl
  intro hread
  rw [Pool.readCopy, hlocate] at hread
  dsimp only at hread
  by_cases hgang : dva.gang = true
  · rw [if_pos hgang] at hread
    cases hraw : (p.readGang io Pool.maxDepth dva bp).run with
    | error e =>
      rw [Id.run_bind, hraw] at hread
      cases hread
    | ok raw =>
      obtain ⟨header, -, -, hpick, -⟩ := (Pool.readGangWith_ok p io).mp hraw
      rw [Pool.headerCandidates, Pool.candidatesOn, hlocate] at hpick
      cases hpick
  · rw [if_neg hgang] at hread
    cases hread

end Unread

/-- A layout of one disk is judged readable, and no block on it is ever read. -/
theorem disk_unread {t device : Nat} {hint : TopHint} (ht : layout.tops[t]? = some hint)
    (hkind : hint.kind = "disk") (hchildren : hint.children = [])
    (hmembers : hint.members = [some device]) (hcount : layout.tops.length ≤ 2 ^ 32)
    (hashes : Hashes) (codecs : Codecs) (io : Io Id) :
    layout.assemble.topReadable t = true ∧
      ∀ bp : BlkPtr, bp.embeddedPayload = none → (∀ dva ∈ bp.dvas, dva.vdev = t) →
        ∀ block, ((Pool.ofAssembly hashes codecs layout.assemble).readBlock io bp false).run ≠
          .ok block := by
  obtain ⟨hleaves, hnode, -⟩ := TopHint.node_of_nil layout.ashift t hchildren 0
    { leaf := 0, members := [] }
  have htree : (layout.topVdev t hint).tree = hint.vdevNode layout.ashift t 0
      [diskNode layout.ashift 0 (syntheticGuid t 0)] := by
    rw [topVdev, hnode, hmembers]
    rfl
  have hlisted : (layout.topVdev t hint).members = numbered t 0 [some device] := by
    rw [TopHint.members_topVdev, hleaves, hmembers]
  constructor
  · rw [PoolAssembly.topReadable, getElem?_tops_assemble, ht, Option.map_some, Option.any_some,
      Topology.TopVdev.readable, htree, hlisted, Topology.nodeReadable_eq]
    have hleaf : Topology.nodeReadable (numbered t 0 [some device])
        (diskNode layout.ashift 0 (syntheticGuid t 0)) = true := by
      rw [Topology.nodeReadable_eq]
      simp [diskNode, numbered]
    simp [TopHint.vdevNode, Topology.judge, hkind, hleaf]
  · intro bp hembedded hon block hblock
    have htop : (Pool.ofAssembly hashes codecs layout.assemble).tops.lookup t =
        some (.unsupported "disk") := by
      rw [tops_ofAssembly, lookup_tops (fun h => Node.fromTree (layout.topVdev h.2 h.1).members
        (readerAshift layout.ashift) (layout.topVdev h.2 h.1).tree) ht hcount, htree,
        Node.fromTree_eq, TopHint.ofTree_vdevNode hint (List.cons_ne_nil _ _) rfl]
      simp [TopHint.group, hkind]
    rw [Pool.readBlock] at hblock
    split at hblock
    · cases hblock
    · rw [hembedded] at hblock
      dsimp only at hblock
      rw [Id.run_bind, Id.run_bind] at hblock
      cases hstop : io.mediumStop.run with
      | some stop =>
        rw [hstop] at hblock
        cases hblock
      | none =>
        rw [hstop] at hblock
        let p := Pool.ofAssembly hashes codecs layout.assemble
        cases hraw : (p.readRawVerified io (p.readGang io Pool.maxDepth) bp).run.2 with
        | error e =>
          dsimp only at hblock
          rw [hraw] at hblock
          cases hblock
        | ok raw =>
          obtain ⟨d, hd, hempty, v, hcopy⟩ := Pool.copy_of_readCopies hraw
          have hdva := Pool.mem_dvas.mpr ⟨List.fst_mem_of_mem_zipIdx hd, hempty⟩
          exact readCopy_unsupported htop rfl (hon d.1 hdva) d.2 _ hcopy

/-- The disk that has been scanned is the pool. -/
def single : LayoutHints :=
  { name := none
    guid := none
    ashift := 12
    tops := [{ kind := "disk", nparity := none, draidNdata := none, draidNspares := none
               draidNgroups := none, members := [some 0], children := [] }] }

theorem disk_unread_single : single.assemble.topReadable 0 = true ∧
    ¬ ∃ block, ((Pool.ofAssembly noHashes noCodecs single.assemble).readBlock
      (blankContents.io blankReader) saltedPointer false).run = .ok block := by
  have htop : single.tops[0]? = some single.tops[0] := rfl
  have h := disk_unread htop rfl rfl rfl (by decide) noHashes noCodecs
    (blankContents.io blankReader)
  refine ⟨h.1, ?_⟩
  rintro ⟨block, hblock⟩
  refine h.2 saltedPointer rfl (fun dva hdva => ?_) block hblock
  have hdvas : saltedPointer.dvas = [saltedPointer.dva0] := by decide
  rw [hdvas] at hdva
  rw [List.mem_singleton.mp hdva]
  rfl

end LayoutHints

end Zio
end ZvolRescue
