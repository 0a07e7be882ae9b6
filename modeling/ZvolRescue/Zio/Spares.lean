import ZvolRescue.Draid.Layout
import ZvolRescue.Lib.Chain
import ZvolRescue.Zio.Soundness
import ZvolRescue.Zio.Tree

/-!
# Distributed spares

A distributed spare of a dRAID stands for another child at each offset.  A column is read through
as many of them as there are, but not through one that a spare vdev holds (`standsIn_iff`).
-/

namespace ZvolRescue
namespace Zio

open Lib Ondisk Draid
open ZvolRescue.Topology (Member)

/-! ## The children of a dRAID -/

/-- The device that a disk is on. -/
def deviceOf (members : List Member) (tree : VdevNode) : Option Nat :=
  (members.find? (fun m => m.guid = tree.guid)).bind Member.present

def dspareId (tree : VdevNode) : Option Nat :=
  if tree.kind = "dspare" then tree.path.bind spareIdFromName else none

def IsDisk (tree : VdevNode) : Prop := tree.kind ≠ "dspare" ∧ tree.children = []

/-- A spare vdev that holds this disk and a distributed spare. -/
def IsSpare (tree disk : VdevNode) (spareId : Nat) : Prop :=
  tree.kind = "spare" ∧ IsDisk disk ∧ ∃ dspare, dspareId dspare = some spareId ∧
    (tree.children = [disk, dspare] ∨ tree.children = [dspare, disk])

structure IsDraid (tree : VdevNode) (cfg : Config) : Prop where
  kind : tree.kind = "draid"
  cfg : Config.new (tree.draidNdata.getD 0) (tree.nparity.getD 0) (tree.draidNspares.getD 0)
    tree.children.length (tree.draidNgroups.getD 0) = .ok cfg

section Spares

variable (cfg : Config) (trees : List VdevNode) (members : List Member) (offset : Nat)

/-- The child that a distributed spare at this index stands for. -/
def standsFor (index : Nat) : Option Nat :=
  (trees[index]?.bind dspareId).map (fun spareId => cfg.spareChild spareId offset)

/-- The device that a child is on at this offset: that of a disk or, where there is none, the one
that the distributed spare leads to. -/
inductive Serves : (index device : Nat) → Prop
  | disk {i device : Nat} {tree : VdevNode} (h : trees[i]? = some tree) (hdisk : IsDisk tree)
    (hdevice : deviceOf members tree = some device) : Serves i device
  | dspare {i device spareId : Nat} {tree : VdevNode} (h : trees[i]? = some tree)
    (hdspare : dspareId tree = some spareId)
    (hchild : Serves (cfg.spareChild spareId offset) device) : Serves i device
  | spareDisk {i device spareId : Nat} {tree disk : VdevNode} (h : trees[i]? = some tree)
    (hspare : IsSpare tree disk spareId) (hdevice : deviceOf members disk = some device) :
    Serves i device
  | spare {i device spareId : Nat} {tree disk : VdevNode} (h : trees[i]? = some tree)
    (hspare : IsSpare tree disk spareId) (hdevice : deviceOf members disk = none)
    (hchild : Serves (cfg.spareChild spareId offset) device) : Serves i device

/-- The distributed spares from this child on lead to a spare vdev that misses its disk. -/
def EndsAtSpare (index : Nat) : Prop :=
  ∃ k j, EndsAt (standsFor cfg trees offset) k index j ∧ ∃ tree disk spareId,
    trees[j]? = some tree ∧ IsSpare tree disk spareId ∧ deviceOf members disk = none

end Spares

/-- The column reads, and more rounds would read the same. -/
structure StandsIn {m : Type → Type} [Monad m] (cfg : Option Config) (children : List (Child m))
    (c : Raidz.Column) (reads : m (Except ReadError (List UInt8)) → Prop) : Prop where
  bytes : reads (readColumn cfg children c)
  ends : ∀ rounds, children.length ≤ rounds →
    readColumnFrom cfg children c rounds c.devidx =
      readColumnFrom cfg children c children.length c.devidx

/-! ## The loop -/

theorem Config.new_children {ndata nparity nspares children ngroups : Nat} {cfg : Config}
    (h : Config.new ndata nparity nspares children ngroups = .ok cfg) :
    cfg.children = children ∧ 0 < children := by
  unfold Config.new at h
  split at h
  · cases h
  split at h
  · cases h
  split at h
  · cases h
  next found hfound =>
  have hchildren : found.children = children := by simpa using List.find?_some hfound
  have hbounds := maps_bounds found (List.mem_of_find?_eq_some hfound)
  dsimp only at h
  split at h
  · cases h
  split at h
  · cases h
  cases h
  exact ⟨rfl, by omega⟩

variable {cfg : Config} {tree : VdevNode} {members : List Member} {ashift : Nat}

theorem IsDraid.fromTree (h : IsDraid tree cfg) (members : List Member) (ashift : Nat) :
    ∃ sectors, Node.fromTree members ashift tree =
      .draid cfg sectors (tree.children.map (Node.fromTree members ashift)) := by
  have hpos := (Config.new_children h.cfg).2
  have hchildren : tree.children.isEmpty = false := by
    rw [List.isEmpty_eq_false_iff]
    exact List.length_pos_iff.mp hpos
  refine ⟨(tree.ashift.filter (fun a => a < 2 ^ 32)).getD ashift, ?_⟩
  rw [Node.fromTree_eq, Node.ofTree, h.kind, if_neg (by decide), hchildren,
    if_neg Bool.false_ne_true]
  dsimp only
  rw [if_neg (by decide), if_pos rfl, h.cfg]

theorem fromTree_dspare {spareId : Nat} (h : dspareId tree = some spareId) :
    Node.fromTree members ashift tree = .dspare spareId := by
  rw [dspareId] at h
  split at h
  · rename_i hkind
    rw [Node.fromTree_eq, Node.ofTree, if_pos hkind, h]
  · cases h

/-- Only a distributed spare is read as one. -/
theorem asChild_fromTree {m : Type → Type} (h : dspareId tree = none)
    (read : (offset size : Nat) → m (Except ReadError (List UInt8))) :
    (Node.fromTree members ashift tree).asChild read = .other read := by
  rw [Node.fromTree_eq, Node.ofTree]
  by_cases hkind : tree.kind = "dspare"
  · rw [dspareId, if_pos hkind] at h
    rw [if_pos hkind, h]
    rfl
  · rw [if_neg hkind]
    dsimp only
    split
    · rfl
    split
    · rfl
    split
    · split <;> rfl
    split <;> rfl

section Loop

variable {m : Type → Type} [Monad m] (io : Io m)

/-- Read what is no distributed spare. -/
def readChild (trees : List VdevNode) (members : List Member) (ashift : Nat) (c : Raidz.Column)
    (index : Nat) : m (Except ReadError (List UInt8)) :=
  match trees[index]? with
  | none => pure (.error (.unknownVdev (index % 2 ^ 32)))
  | some tree => readFirst io (Node.fromTree members ashift tree) c.offset c.size

theorem readColumnFrom_eq (cfg : Config) (trees : List VdevNode) (members : List Member)
    (ashift : Nat) (c : Raidz.Column) (rounds index : Nat) :
    readColumnFrom (some cfg) (childrenOf io (trees.map (Node.fromTree members ashift))) c rounds
      index =
    match follow (standsFor cfg trees c.offset) rounds index with
    | none => pure (.error (.unsupported "distributed spare chain loops"))
    | some last => readChild io trees members ashift c last := by
  induction rounds generalizing index with
  | zero => rfl
  | succ rounds ih =>
    rw [readColumnFrom, follow, childrenOf_eq, List.map_map, List.getElem?_map, standsFor]
    cases htree : trees[index]? with
    | none => simp [readChild, htree]
    | some tree =>
      cases hspare : dspareId tree with
      | none => simp [hspare, asChild_fromTree, readChild, htree]
      | some spareId =>
        simp only [Option.map_some, Function.comp_apply, fromTree_dspare hspare, Option.bind_some,
          hspare]
        rw [← ih, childrenOf_eq, List.map_map]
        rfl

end Loop

/-! ## What is read -/

section Reads

variable {trees : List VdevNode} {offset : Nat}

theorem standsFor_of_not_dspare {i : Nat} (htree : trees[i]? = some tree)
    (h : dspareId tree = none) : standsFor cfg trees offset i = none := by
  rw [standsFor, htree, Option.bind_some, h, Option.map_none]

theorem IsDisk.dspareId_eq (h : IsDisk tree) : dspareId tree = none := if_neg h.1

theorem IsSpare.dspareId_eq {disk : VdevNode} {spareId : Nat} (h : IsSpare tree disk spareId) :
    dspareId tree = none := by
  rw [dspareId, h.1]
  rfl

theorem fromTree_disk (h : IsDisk tree) :
    Node.fromTree members ashift tree = .leaf (deviceOf members tree) tree.guid := by
  rw [Node.fromTree_eq, Node.ofTree, if_neg h.1, h.2]
  rfl

/-- A spare vdev is a mirror of its disk and its distributed spare. -/
theorem fromTree_spare {disk : VdevNode} {spareId : Nat} (h : IsSpare tree disk spareId) :
    Node.fromTree members ashift tree =
        .mirror [.leaf (deviceOf members disk) disk.guid, .dspare spareId] ∨
      Node.fromTree members ashift tree =
        .mirror [.dspare spareId, .leaf (deviceOf members disk) disk.guid] := by
  obtain ⟨hkind, hdisk, dspare, hdspare, hchildren | hchildren⟩ := h
  · refine .inl ?_
    rw [Node.fromTree_eq, Node.ofTree, hkind, hchildren, List.map_cons, List.map_cons,
      fromTree_disk hdisk, fromTree_dspare hdspare]
    rfl
  · refine .inr ?_
    rw [Node.fromTree_eq, Node.ofTree, hkind, hchildren, List.map_cons, List.map_cons,
      fromTree_disk hdisk, fromTree_dspare hdspare]
    rfl

theorem IsSpare.not_disk {disk : VdevNode} {spareId : Nat} (h : IsSpare tree disk spareId) :
    ¬ IsDisk tree := by
  rintro ⟨-, hnil⟩
  obtain ⟨-, -, dspare, -, hchildren | hchildren⟩ := h
  · rw [hnil] at hchildren
    cases hchildren
  · rw [hnil] at hchildren
    cases hchildren

/-- A spare vdev holds one disk. -/
theorem IsSpare.unique {disk disk' : VdevNode} {spareId spareId' : Nat}
    (h : IsSpare tree disk spareId) (h' : IsSpare tree disk' spareId') : disk = disk' := by
  obtain ⟨-, hdisk, dspare, hdspare, hchildren⟩ := h
  obtain ⟨-, hdisk', dspare', hdspare', hchildren'⟩ := h'
  have hne : disk ≠ dspare' := by
    rintro rfl
    rw [hdisk.dspareId_eq] at hdspare'
    cases hdspare'
  have hmem : disk ∈ tree.children := by
    rcases hchildren with hchildren | hchildren
    · rw [hchildren]
      exact List.mem_cons_self
    · rw [hchildren]
      exact List.mem_cons_of_mem _ List.mem_cons_self
  rcases hchildren' with hchildren' | hchildren'
  · rw [hchildren'] at hmem
    exact (List.mem_pair.mp hmem).resolve_right hne
  · rw [hchildren'] at hmem
    exact (List.mem_pair.mp hmem).resolve_left hne

/-- Whether the chain ends at a spare vdev is seen where it ends. -/
theorem endsAtSpare_iff {i k j : Nat} {last : VdevNode}
    (hend : EndsAt (standsFor cfg trees offset) k i j) (hlast : trees[j]? = some last) :
    EndsAtSpare cfg trees members offset i ↔
      ∃ disk spareId, IsSpare last disk spareId ∧ deviceOf members disk = none := by
  constructor
  · rintro ⟨k', j', hend', tree, disk, spareId, htree, hspare, hnone⟩
    rw [(hend'.unique hend).2, hlast] at htree
    obtain rfl := Option.some.inj htree
    exact ⟨disk, spareId, hspare, hnone⟩
  · rintro ⟨disk, spareId, hspare, hnone⟩
    exact ⟨k, j, hend, last, disk, spareId, hlast, hspare, hnone⟩

/-- Where the distributed spares from a child that is served lead. -/
theorem Serves.exists_end {i device : Nat} (h : Serves cfg trees members offset i device) :
    ∃ k j, EndsAt (standsFor cfg trees offset) k i j ∧ ∃ tree, trees[j]? = some tree ∧
      (IsDisk tree ∧ deviceOf members tree = some device ∨ ∃ disk spareId,
        IsSpare tree disk spareId ∧
          (deviceOf members disk = some device ∨ deviceOf members disk = none)) := by
  induction h with
  | disk htree hdisk hdevice =>
    exact ⟨0, _, .here (standsFor_of_not_dspare htree hdisk.dspareId_eq), _, htree,
      .inl ⟨hdisk, hdevice⟩⟩
  | dspare htree hdspare _ ih =>
    obtain ⟨k, j, hend, hlast⟩ := ih
    refine ⟨k + 1, j, .next ?_ hend, hlast⟩
    rw [standsFor, htree, Option.bind_some, hdspare, Option.map_some]
  | spareDisk htree hspare hdevice =>
    exact ⟨0, _, .here (standsFor_of_not_dspare htree hspare.dspareId_eq), _, htree,
      .inr ⟨_, _, hspare, .inl hdevice⟩⟩
  | spare htree hspare hdevice _ _ =>
    exact ⟨0, _, .here (standsFor_of_not_dspare htree hspare.dspareId_eq), _, htree,
      .inr ⟨_, _, hspare, .inr hdevice⟩⟩

theorem Serves.lt_length {i device : Nat} (h : Serves cfg trees members offset i device) :
    i < trees.length := by
  cases h with
  | disk htree _ _ => exact (List.getElem?_eq_some_iff.mp htree).1
  | dspare htree _ _ => exact (List.getElem?_eq_some_iff.mp htree).1
  | spareDisk htree _ _ => exact (List.getElem?_eq_some_iff.mp htree).1
  | spare htree _ _ _ => exact (List.getElem?_eq_some_iff.mp htree).1

/-- A distributed spare stands for one of the children. -/
theorem standsFor_lt (hchildren : cfg.children = trees.length) :
    ∀ i ∈ List.range trees.length, ∀ j, standsFor cfg trees offset i = some j →
      j ∈ List.range trees.length := by
  intro i hi j hj
  have hpos := (List.mem_range.mp hi).pos
  obtain ⟨spareId, -, rfl⟩ := Option.map_eq_some_iff.mp hj
  rw [List.mem_range, ← hchildren]
  exact Nat.mod_lt _ (hchildren ▸ hpos)

variable {ω : Type} {r : Reader ω} {D : Contents} {size : Nat}

theorem readFirst_leaf (io : Io Id) (device : Option Nat) (guid : Nat) :
    readFirst io (.leaf device guid) offset size = io.readLeaf device offset size := by
  show firstOk ReadError.noMember [io.readLeaf device offset size] = _
  cases io.readLeaf device offset size <;> rfl

/-- A spare vdev reads its disk only. -/
theorem readFirst_spare {disk : VdevNode} {spareId : Nat} (h : IsSpare tree disk spareId)
    (b : List UInt8) :
    readFirst (D.io r) (Node.fromTree members ashift tree) offset size = .ok b ↔
      (D.io r).readLeaf (deviceOf members disk) offset size = .ok b := by
  rcases fromTree_spare h with hnode | hnode
  · rw [hnode]
    show firstOk ReadError.noMember [(D.io r).readLeaf (deviceOf members disk) offset size, _] =
      .ok b ↔ _
    cases (D.io r).readLeaf (deviceOf members disk) offset size with
    | ok a => exact Iff.rfl
    | error e => simp [firstOk]
  · rw [hnode]
    show firstOk ReadError.noMember [_, (D.io r).readLeaf (deviceOf members disk) offset size] =
      .ok b ↔ _
    cases (D.io r).readLeaf (deviceOf members disk) offset size with
    | ok a => exact Iff.rfl
    | error e => simp [firstOk]

/-- What the loop gives is what is read at the end of the chain. -/
theorem readColumnFrom_of_endsAt (io : Io Id) (hchildren : cfg.children = trees.length)
    {c : Raidz.Column} {k j : Nat} (hlt : c.devidx < trees.length)
    (hend : EndsAt (standsFor cfg trees c.offset) k c.devidx j) :
    readColumnFrom (some cfg) (childrenOf io (trees.map (Node.fromTree members ashift))) c
      trees.length c.devidx = readChild io trees members ashift c j := by
  have hclosed := @standsFor_lt cfg trees c.offset hchildren
  have hrounds := hend.lt_length hclosed (List.mem_range.mpr hlt)
  rw [List.length_range] at hrounds
  rw [readColumnFrom_eq, follow_eq_some.mpr ⟨k, hrounds, hend⟩]

/-- The bytes that a column reads over contents. -/
theorem readColumn_iff (hr : Steady r D) (w : ω) (hchildren : cfg.children = trees.length)
    {c : Raidz.Column} {device : Nat} (h : Serves cfg trees members c.offset c.devidx device)
    {b : List UInt8} (hread : (D.io r).readLeaf (some device) c.offset c.size = .ok b) :
    readColumn (some cfg) (childrenOf (D.io r) (trees.map (Node.fromTree members ashift))) c =
      .ok b ↔ c.size = 0 ∨ ¬ EndsAtSpare cfg trees members c.offset c.devidx := by
  rw [readColumn]
  by_cases hsize : c.size = 0
  · rw [if_pos hsize]
    have hlen := hr.length_of_readLeaf w hread
    rw [hsize, List.length_eq_zero_iff] at hlen
    rw [hlen]
    exact ⟨fun _ => .inl hsize, fun _ => rfl⟩
  · obtain ⟨k, j, hend, last, hlast, hkind⟩ := h.exists_end
    have hlength : (childrenOf (D.io r) (trees.map (Node.fromTree members ashift))).length =
        trees.length := by
      rw [childrenOf_eq, List.length_map, List.length_map]
    rw [if_neg hsize, hlength, readColumnFrom_of_endsAt (D.io r) hchildren h.lt_length hend,
      readChild, hlast, or_iff_right hsize]
    show readFirst (D.io r) (Node.fromTree members ashift last) c.offset c.size = .ok b ↔ _
    rw [endsAtSpare_iff hend hlast]
    rcases hkind with ⟨hdisk, hdevice⟩ | ⟨disk, spareId, hspare, hdevice⟩
    · rw [fromTree_disk hdisk, readFirst_leaf, hdevice]
      exact iff_of_true hread (fun ⟨_, _, hspare, _⟩ => hspare.not_disk hdisk)
    · rw [readFirst_spare hspare]
      rcases hdevice with hdevice | hdevice
      · rw [hdevice]
        refine iff_of_true hread (fun ⟨disk', _, hspare', hnone⟩ => ?_)
        rw [← hspare.unique hspare', hdevice] at hnone
        cases hnone
      · rw [hdevice]
        refine iff_of_false (fun h => ?_) (not_not_intro ⟨disk, spareId, hspare, hdevice⟩)
        cases h

end Reads

theorem readColumn_run {ω : Type} {r : Reader ω} {D : Contents} (hr : Steady r D)
    {s : ReaderState ω} (hs : Quiet D s) (nodes : List Node) (c : Raidz.Column) :
    (readColumn (some cfg) (childrenOf r.io nodes) c s).1 =
      readColumn (some cfg) (childrenOf (D.io r) nodes) c :=
  Refines.run (readColumn_related (childrenOf_related hr.io_refines.related nodes) (some cfg) c) hs

/-- A column is read from the device that its child is on, however many distributed spares lead to
it, exactly where they do not lead to a spare vdev that misses its disk. -/
theorem standsIn_iff {ω : Type} {r : Reader ω} {D : Contents} (hr : Steady r D)
    {s : ReaderState ω} (hs : Quiet D s) (htree : IsDraid tree cfg) {c : Raidz.Column}
    {device : Nat} (h : Serves cfg tree.children members c.offset c.devidx device)
    {b : List UInt8} (hread : (r.readLeaf (some device) c.offset c.size s).1 = .ok b) :
    StandsIn (Node.fromTree members ashift tree).cfg
        (childrenOf r.io (Node.fromTree members ashift tree).children) c
        (fun read => (read s).1 = .ok b) ↔
      c.size = 0 ∨ ¬ EndsAtSpare cfg tree.children members c.offset c.devidx := by
  obtain ⟨sectors, hnode⟩ := htree.fromTree members ashift
  have hchildren := (Config.new_children htree.cfg).1
  rw [hnode]
  show StandsIn (some cfg) (childrenOf r.io (tree.children.map (Node.fromTree members ashift))) c
    (fun read => (read s).1 = .ok b) ↔ _
  have hpure : (D.io r).readLeaf (some device) c.offset c.size = .ok b :=
    ((hr.readLeaf_refines (some device) c.offset c.size).run hs).symm.trans hread
  rw [← readColumn_iff hr s.world hchildren h hpure]
  have hrun := @readColumn_run cfg _ r D hr s hs (tree.children.map (Node.fromTree members ashift)) c
  constructor
  · intro hstands
    exact hrun.symm.trans hstands.bytes
  · intro hbytes
    refine ⟨hrun.trans hbytes, fun rounds hrounds => ?_⟩
    have hlength : (childrenOf r.io (tree.children.map (Node.fromTree members ashift))).length =
        tree.children.length := by
      rw [childrenOf_eq, List.length_map, List.length_map]
    rw [hlength] at hrounds ⊢
    have hstable := follow_stable (@standsFor_lt cfg tree.children c.offset hchildren)
      (List.mem_range.mpr h.lt_length) (List.length_range.le.trans hrounds)
    rw [List.length_range] at hstable
    rw [readColumnFrom_eq, readColumnFrom_eq, hstable]

/-! ## A spare vdev that misses its disk -/

def vdevOf (kind : String) (guid : Nat) (path : Option String) (children : List VdevNode) :
    VdevNode :=
  { kind, id := 0, guid, path, ashift := none, asize := none, metaslabArray := none
    metaslabShift := none, nparity := none, draidNdata := none, draidNspares := none
    draidNgroups := none, isLog := false, indirectObject := none, children }

def missingDisk : VdevNode := vdevOf "disk" 1 none []

def sparedVdev : VdevNode :=
  vdevOf "spare" 4 none [missingDisk, vdevOf "dspare" 5 (some "draid1-0-0") []]

/-- Three children, the first of which has been replaced by the distributed spare. -/
def sparedTree : VdevNode :=
  { vdevOf "draid" 6 none [sparedVdev, vdevOf "disk" 2 none [], vdevOf "disk" 3 none []] with
    nparity := some 1, draidNdata := some 1, draidNspares := some 1, draidNgroups := some 1 }

def sparedMembers : List Member :=
  [{ guid := 1, path := none, present := none }, { guid := 5, path := none, present := none },
    { guid := 2, path := none, present := some 0 }, { guid := 3, path := none, present := some 1 }]

/-- The first column of a block of one sector, where the spare stands for the second child. -/
def sparedColumn : Raidz.Column := { devidx := 0, offset := 67108864, size := 512 }

theorem sparedTree_draid : ∃ cfg, IsDraid sparedTree cfg ∧
    sparedColumn ∈ (cfg.map 134217728 512 9).flatMap Raidz.Map.cols ∧
    cfg.spareChild 0 sparedColumn.offset = 1 := by
  have hnew : (Config.new 1 1 1 3 1).map (fun cfg =>
      (decide (sparedColumn ∈ (cfg.map 134217728 512 9).flatMap Raidz.Map.cols),
        cfg.spareChild 0 sparedColumn.offset)) = .ok (true, 1) := by
    decide +kernel
  cases hcfg : Config.new 1 1 1 3 1 with
  | error e =>
    rw [hcfg] at hnew
    cases hnew
  | ok cfg =>
    rw [hcfg] at hnew
    simp only [Except.map, Except.ok.injEq, Prod.mk.injEq, decide_eq_true_eq] at hnew
    exact ⟨cfg, ⟨rfl, hcfg⟩, hnew.1, hnew.2⟩

theorem sparedVdev_spare : IsSpare sparedVdev missingDisk 0 :=
  ⟨rfl, ⟨by decide, rfl⟩, vdevOf "dspare" 5 (some "draid1-0-0") [], by decide, .inl rfl⟩

theorem sparedColumn_serves {cfg : Config} (h : cfg.spareChild 0 sparedColumn.offset = 1) :
    Serves cfg sparedTree.children sparedMembers sparedColumn.offset sparedColumn.devidx 0 := by
  refine .spare rfl sparedVdev_spare (by decide) ?_
  rw [h]
  have hdisk : sparedTree.children[1]? = some (vdevOf "disk" 2 none []) := rfl
  exact .disk hdisk ⟨by decide, rfl⟩ (by decide)

theorem sparedColumn_ends (cfg : Config) :
    EndsAtSpare cfg sparedTree.children sparedMembers sparedColumn.offset sparedColumn.devidx :=
  ⟨0, 0, .here rfl, sparedVdev, missingDisk, 0, rfl, sparedVdev_spare, by decide⟩

/-- The column is lost, although the child that the distributed spare stands for is there. -/
theorem spared_column_lost : ∃ cfg, IsDraid sparedTree cfg ∧
    sparedColumn ∈ (cfg.map 134217728 512 9).flatMap Raidz.Map.cols ∧
    Serves cfg sparedTree.children sparedMembers sparedColumn.offset sparedColumn.devidx 0 ∧
    (blankReader.readLeaf (some 0) sparedColumn.offset sparedColumn.size startState).1 =
      .ok (List.replicate 512 0) ∧
    ¬ StandsIn (Node.fromTree sparedMembers 9 sparedTree).cfg
      (childrenOf blankReader.io (Node.fromTree sparedMembers 9 sparedTree).children) sparedColumn
      (fun read => (read startState).1 = .ok (List.replicate 512 0)) := by
  obtain ⟨cfg, hdraid, hcolumn, hchild⟩ := sparedTree_draid
  refine ⟨cfg, hdraid, hcolumn, sparedColumn_serves hchild, rfl, fun h => ?_⟩
  obtain ⟨sectors, hnode⟩ := hdraid.fromTree sparedMembers 9
  have hbytes := h.bytes
  rw [hnode] at hbytes
  have hpure := (readColumn_run blankReader_steady (startState_quiet _) _ _).symm.trans hbytes
  have hor := (readColumn_iff blankReader_steady () (Config.new_children hdraid.cfg).1
    (sparedColumn_serves hchild) rfl).mp hpure
  exact hor.elim (by decide) (fun hnot => hnot (sparedColumn_ends cfg))

theorem standsIn_iff_spared : ∃ cfg, StandsIn (Node.fromTree sparedMembers 9 sparedTree).cfg
      (childrenOf blankReader.io (Node.fromTree sparedMembers 9 sparedTree).children) sparedColumn
      (fun read => (read startState).1 = .ok (List.replicate 512 0)) ↔
    sparedColumn.size = 0 ∨
      ¬ EndsAtSpare cfg sparedTree.children sparedMembers sparedColumn.offset sparedColumn.devidx := by
  obtain ⟨cfg, hdraid, -, hchild⟩ := sparedTree_draid
  exact ⟨cfg, standsIn_iff blankReader_steady (startState_quiet _) hdraid
    (sparedColumn_serves hchild) rfl⟩

end Zio
end ZvolRescue
