import ZvolRescue.Zio.Unreadable

/-!
# Topologies that can be read

`nodeReadable` judges whether enough disks of a top-level vdev are there.  A vdev that it accepts
gives every block that was written to it.  What it rejects is lost, except that it counts no
parity for a RAID-Z whose label records none, where the reader counts one
(`topologySound_iff`).
-/

namespace ZvolRescue
namespace Topology

open Lib Ondisk Zio

/-! ## The judgement -/

/-- A vdev with children of which so many are readable. -/
def judge (tree : VdevNode) (count readable : Nat) : Bool :=
  let missing := count - readable
  if tree.kind = "mirror" ∨ tree.kind = "spare" ∨ tree.kind = "replacing" then readable ≥ 1
  else if tree.kind = "raidz" ∨ tree.kind = "draid" then missing ≤ tree.nparity.getD 0
  else missing = 0

mutual

def nodeReadable (members : List Member) : VdevNode → Bool
  | tree@{ children, .. } =>
    if children.isEmpty then members.any (fun m => m.guid = tree.guid ∧ m.present.isSome)
    else judge tree children.length (countReadable members children)

def countReadable (members : List Member) : List VdevNode → Nat
  | [] => 0
  | tree :: trees =>
    (if nodeReadable members tree then 1 else 0) + countReadable members trees

end

def TopVdev.readable (top : TopVdev) : Bool := nodeReadable top.members top.tree

theorem countReadable_eq (members : List Member) (trees : List VdevNode) :
    countReadable members trees = trees.countP (nodeReadable members) := by
  induction trees with
  | nil => rfl
  | cons tree trees ih => rw [countReadable, ih, List.countP_cons, Nat.add_comm]

theorem nodeReadable_eq (members : List Member) (tree : VdevNode) :
    nodeReadable members tree =
      if tree.children.isEmpty then members.any (fun m => m.guid = tree.guid ∧ m.present.isSome)
      else judge tree tree.children.length (tree.children.countP (nodeReadable members)) := by
  obtain ⟨⟩ := tree
  rw [nodeReadable, countReadable_eq]

/-! ## Trees of labels -/

/-- A tree of disks, mirrors, spares, replacing vdevs and RAID-Z, of the parities and widths that
there are. -/
inductive Plain (ashift : Nat) : VdevNode → Prop
  | leaf {tree : VdevNode} (kind : tree.kind ≠ "dspare") (children : tree.children = []) :
    Plain ashift tree
  | mirror {tree : VdevNode}
    (kind : tree.kind = "mirror" ∨ tree.kind = "spare" ∨ tree.kind = "replacing")
    (some : tree.children ≠ []) (plain : ∀ child ∈ tree.children, Plain ashift child) :
    Plain ashift tree
  | raidz {tree : VdevNode} (kind : tree.kind = "raidz")
    (parity : ∀ nparity, tree.nparity = some nparity → 1 ≤ nparity ∧ nparity ≤ 3)
    (lt : tree.nparity.getD 1 < tree.children.length)
    (wide : tree.children.length ≤ tree.nparity.getD 1 + 255)
    (ashift_le : (tree.ashift.filter (fun a => a < 2 ^ 32)).getD ashift ≤ 32)
    (plain : ∀ child ∈ tree.children, Plain ashift child) : Plain ashift tree

mutual

/-- The tree with one parity where a RAID-Z records none. -/
def recordParity : VdevNode → VdevNode
  | tree@{ children, .. } =>
    { tree with
      nparity := if tree.kind = "raidz" then some (tree.nparity.getD 1) else tree.nparity
      children := recordParities children }

def recordParities : List VdevNode → List VdevNode
  | [] => []
  | tree :: trees => recordParity tree :: recordParities trees

end

theorem recordParities_eq (trees : List VdevNode) :
    recordParities trees = trees.map recordParity := by
  induction trees with
  | nil => rfl
  | cons tree trees ih => rw [recordParities, ih, List.map_cons]

theorem recordParity_eq (tree : VdevNode) : recordParity tree =
    { tree with
      nparity := if tree.kind = "raidz" then some (tree.nparity.getD 1) else tree.nparity
      children := tree.children.map recordParity } := by
  obtain ⟨⟩ := tree
  rw [recordParity, recordParities_eq]

/-- Members of one GUID are there alike, as `assemble` makes them. -/
def AlikePresent (members : List Member) : Prop :=
  ∀ m ∈ members, ∀ m' ∈ members, m.guid = m'.guid → m.present = m'.present

theorem isSome_find_iff {members : List Member} (h : AlikePresent members) (guid : Nat) :
    ((members.find? (fun m => m.guid = guid)).bind Member.present).isSome =
      members.any (fun m => m.guid = guid ∧ m.present.isSome) := by
  rw [Bool.eq_iff_iff, List.any_eq_true]
  simp only [decide_eq_true_eq]
  cases hfind : members.find? (fun m => m.guid = guid) with
  | none =>
    refine ⟨fun hnone => (by cases hnone), fun ⟨m, hm, hguid, _⟩ => ?_⟩
    exact absurd hguid (by simpa using List.find?_eq_none.mp hfind m hm)
  | some m =>
    have hm := List.mem_of_find?_eq_some hfind
    have hguid : m.guid = guid := by simpa using List.find?_some hfind
    rw [Option.bind_some]
    refine ⟨fun hsome => ⟨m, hm, hguid, hsome⟩, fun ⟨m', hm', hguid', hsome⟩ => ?_⟩
    rw [h m hm m' hm' (hguid.trans hguid'.symm)]
    exact hsome

section Trees

variable {ashift : Nat} {members : List Member} {tree : VdevNode}

theorem fromTree_leaf (hkind : tree.kind ≠ "dspare") (hchildren : tree.children = []) :
    Node.fromTree members ashift tree =
      .leaf ((members.find? (fun m => m.guid = tree.guid)).bind Member.present) tree.guid := by
  rw [Node.fromTree_eq, Node.ofTree, if_neg hkind, hchildren, List.isEmpty_nil, if_pos rfl]

theorem fromTree_mirror
    (hkind : tree.kind = "mirror" ∨ tree.kind = "spare" ∨ tree.kind = "replacing")
    (hsome : tree.children ≠ []) : Node.fromTree members ashift tree =
      .mirror (tree.children.map (Node.fromTree members ashift)) := by
  have hdspare : tree.kind ≠ "dspare" := by
    rcases hkind with h | h | h <;> rw [h] <;> decide
  rw [Node.fromTree_eq, Node.ofTree, if_neg hdspare, List.isEmpty_eq_false_iff.mpr hsome,
    if_neg Bool.false_ne_true]
  exact if_pos hkind

theorem fromTree_raidz (hkind : tree.kind = "raidz") (hsome : tree.children ≠ []) :
    Node.fromTree members ashift tree = .raidz (tree.nparity.getD 1)
      ((tree.ashift.filter (fun a => a < 2 ^ 32)).getD ashift)
      (tree.children.map (Node.fromTree members ashift)) := by
  rw [Node.fromTree_eq, Node.ofTree, hkind, if_neg (by decide),
    List.isEmpty_eq_false_iff.mpr hsome, if_neg Bool.false_ne_true]
  dsimp only
  rw [if_neg (by decide), if_neg (by decide), if_pos rfl]

theorem Plain.good (h : Plain ashift tree) : Good (Node.fromTree members ashift tree) := by
  induction h with
  | leaf kind children =>
    rw [fromTree_leaf kind children]
    exact .leaf
  | mirror kind some plain ih =>
    rw [fromTree_mirror kind some]
    refine .mirror (fun node hnode => ?_)
    obtain ⟨child, hchild, rfl⟩ := List.mem_map.mp hnode
    exact ih child hchild
  | raidz kind parity lt wide ashift_le plain ih =>
    rename_i tree
    have hparity : 1 ≤ tree.nparity.getD 1 ∧ tree.nparity.getD 1 ≤ 3 := by
      cases hn : tree.nparity with
      | none => simp
      | some nparity => exact parity nparity hn
    rw [fromTree_raidz kind (List.length_pos_iff.mp (by omega))]
    refine .raidz hparity.1 hparity.2 ?_ ?_ ashift_le (fun node hnode => ?_)
    · rw [List.length_map]
      exact lt
    · rw [List.length_map]
      exact wide
    · obtain ⟨child, hchild, rfl⟩ := List.mem_map.mp hnode
      exact ih child hchild

/-- The reader counts one parity for a RAID-Z that records none. -/
theorem Plain.reads_eq (h : Plain ashift tree) (hmembers : AlikePresent members) :
    (Node.fromTree members ashift tree).reads = nodeReadable members (recordParity tree) := by
  have hcount : ∀ trees : List VdevNode, (∀ child ∈ trees,
      (Node.fromTree members ashift child).reads = nodeReadable members (recordParity child)) →
      countReads (trees.map (Node.fromTree members ashift)) =
        (trees.map recordParity).countP (nodeReadable members) := by
    intro trees hall
    rw [countReads_eq, List.countP_map, List.countP_map]
    exact List.countP_congr (fun child hchild => by
      rw [Function.comp_apply, Function.comp_apply, hall child hchild])
  induction h with
  | leaf kind children =>
    rename_i tree
    rw [fromTree_leaf kind children, Node.reads, isSome_find_iff hmembers, nodeReadable_eq,
      recordParity_eq, children]
    rfl
  | mirror kind some plain ih =>
    rename_i tree
    rw [fromTree_mirror kind some, Node.reads, hcount _ ih, nodeReadable_eq, recordParity_eq]
    dsimp only
    rw [List.isEmpty_eq_false_iff.mpr (by simpa using some), if_neg Bool.false_ne_true, judge,
      if_pos kind]
    rfl
  | raidz kind parity lt wide ashift_le plain ih =>
    rename_i tree
    have hsome : tree.children ≠ [] := List.length_pos_iff.mp (by omega)
    rw [fromTree_raidz kind hsome, Node.reads, hcount _ ih, nodeReadable_eq, recordParity_eq]
    dsimp only
    rw [List.isEmpty_eq_false_iff.mpr (by simpa using hsome), if_neg Bool.false_ne_true, judge]
    dsimp only
    rw [kind, if_neg (by decide), if_pos (by decide), if_pos rfl, Option.getD_some,
      List.length_map, List.length_map]

/-- With the parity recorded no less is readable. -/
theorem Plain.readable_recordParity (h : Plain ashift tree)
    (hreadable : nodeReadable members tree = true) :
    nodeReadable members (recordParity tree) = true := by
  have hcount : ∀ trees : List VdevNode, (∀ child ∈ trees, nodeReadable members child = true →
      nodeReadable members (recordParity child) = true) →
      trees.countP (nodeReadable members) ≤
        (trees.map recordParity).countP (nodeReadable members) := by
    intro trees hall
    rw [List.countP_map]
    exact List.countP_mono_left hall
  induction h with
  | leaf kind children =>
    rw [nodeReadable_eq, children] at hreadable
    rw [nodeReadable_eq, recordParity_eq, children]
    exact hreadable
  | mirror kind some plain ih =>
    rename_i tree
    have hmore := hcount _ ih
    rw [nodeReadable_eq, List.isEmpty_eq_false_iff.mpr some, if_neg Bool.false_ne_true, judge,
      if_pos kind, decide_eq_true_iff] at hreadable
    rw [nodeReadable_eq, recordParity_eq]
    dsimp only
    rw [List.isEmpty_eq_false_iff.mpr (by simpa using some), if_neg Bool.false_ne_true, judge,
      if_pos kind, decide_eq_true_iff]
    exact hreadable.trans hmore
  | raidz kind parity lt wide ashift_le plain ih =>
    rename_i tree
    have hsome : tree.children ≠ [] := List.length_pos_iff.mp (by omega)
    have hmore := hcount _ ih
    have hparity : tree.nparity.getD 0 ≤ tree.nparity.getD 1 := by
      cases tree.nparity with
      | none => exact Nat.zero_le 1
      | some nparity => exact le_refl _
    rw [nodeReadable_eq, List.isEmpty_eq_false_iff.mpr hsome, if_neg Bool.false_ne_true, judge,
      kind, if_neg (by decide), if_pos (by decide), decide_eq_true_iff] at hreadable
    rw [nodeReadable_eq, recordParity_eq]
    dsimp only
    rw [List.isEmpty_eq_false_iff.mpr (by simpa using hsome), if_neg Bool.false_ne_true, judge]
    dsimp only
    rw [kind, if_neg (by decide), if_pos (by decide), if_pos rfl, Option.getD_some,
      decide_eq_true_iff, List.length_map]
    omega

theorem spanOf_pos {nodes : List Node} (h : ∀ node ∈ nodes, 0 < node.span) :
    0 < spanOf nodes := by
  induction nodes with
  | nil => decide
  | cons node nodes ih =>
    rw [spanOf]
    exact Nat.lcm_pos (h node List.mem_cons_self)
      (ih (fun n hn => h n (List.mem_cons_of_mem _ hn)))

theorem Plain.span_pos (h : Plain ashift tree) :
    0 < (Node.fromTree members ashift tree).span := by
  have hchildren : ∀ trees : List VdevNode,
      (∀ child ∈ trees, 0 < (Node.fromTree members ashift child).span) →
        0 < spanOf (trees.map (Node.fromTree members ashift)) := by
    intro trees hall
    refine spanOf_pos (fun node hnode => ?_)
    obtain ⟨child, hchild, rfl⟩ := List.mem_map.mp hnode
    exact hall child hchild
  induction h with
  | leaf kind children =>
    rw [fromTree_leaf kind children, Node.span]
    decide
  | mirror kind some plain ih =>
    rw [fromTree_mirror kind some, Node.span]
    exact hchildren _ ih
  | raidz kind parity lt wide ashift_le plain ih =>
    rw [fromTree_raidz kind (List.length_pos_iff.mp (by omega)), Node.span, List.length_map]
    exact Nat.mul_pos (by omega) (Nat.lcm_pos (Nat.two_pow_pos _) (hchildren _ ih))

end Trees

/-! ## What the judgement says -/

/-- Every block that the devices hold is read. -/
def AllRead (node : Node) : Prop :=
  ∀ (ω : Type) (r : Reader ω) (D : Contents), Steady r D → ∀ s, Quiet D s →
    ∀ (dva : Dva) (bp : BlkPtr) (i : Nat) (content : List UInt8),
      dva.offset < word → 0 < bp.psize → bp.psize ≤ 2 ^ 25 →
      Holds (D.io r) node dva.offset bp.psize content →
      r.pool.verdict bp content = .ok ∨ r.pool.verdict bp content = .notChecked →
      (r.pool.readVerified r.io dva bp i node s).1.2 =
        .ok (content, r.pool.verdict bp content)

/-- Some block that the devices hold is not. -/
def SomeLost (node : Node) : Prop :=
  ∃ (ω : Type) (r : Reader ω) (D : Contents) (s : ReaderState ω) (dva : Dva) (bp : BlkPtr)
    (content : List UInt8), Steady r D ∧ Quiet D s ∧
      dva.offset < word ∧ 0 < bp.psize ∧ bp.psize ≤ 2 ^ 25 ∧
      Holds (D.io r) node dva.offset bp.psize content ∧ r.pool.verdict bp content = .ok ∧
      ∃ e, (r.pool.readVerified r.io dva bp 0 node s).1.2 = .error e

/-- What `nodeReadable` accepts is read, and of a RAID-Z that it rejects something is lost. -/
structure TopologySound (tree : VdevNode) (members : List Member) (ashift : Nat) : Prop where
  accepted : nodeReadable members tree = true → AllRead (Node.fromTree members ashift tree)
  rejected : tree.kind = "raidz" → nodeReadable members tree = false →
    SomeLost (Node.fromTree members ashift tree)

theorem readVerified_steady {ω : Type} {r : Reader ω} {D : Contents} (hr : Steady r D)
    {s : ReaderState ω} (hs : Quiet D s) (dva : Dva) (bp : BlkPtr) (i : Nat) (node : Node) :
    (r.pool.readVerified r.io dva bp i node s).1 =
      (r.pool.readVerified (D.io r) dva bp i node).run :=
  Lib.Refines.run (r.pool.readVerified_related hr.io_refines.related dva bp i node) hs

theorem allRead_of_reads {node : Node} (hgood : Good node) (hreads : node.reads = true) :
    AllRead node := by
  intro ω r D hr s hs dva bp i content hoffset hpos hsize hholds hverdict
  rw [readVerified_steady hr hs]
  exact (hgood.obtains r.pool (D.absent r) i hpos (hsize.trans (by decide)) hoffset hholds
    hverdict).some hreads

theorem not_someLost {node : Node} (hgood : Good node) (hreads : node.reads = true) :
    ¬ SomeLost node := by
  intro ⟨ω, r, D, s, dva, bp, content, hr, hs, hoffset, hpos, hsize, hholds, hverdict, e, he⟩
  rw [allRead_of_reads hgood hreads ω r D hr s hs dva bp 0 content hoffset hpos hsize hholds
    (Or.inl hverdict)] at he
  cases he

/-- Devices full of zeros. -/
def blankReader (n : Nat) (pool : Pool) : Reader Unit :=
  { devices := List.replicate n (some (filledWith 0)), bases := [], pool }

theorem blankReader_steady (n : Nat) (pool : Pool) :
    Steady (blankReader n pool) blankContents where
  answer := by
    intro index dev hdev offset size w
    have hmem : dev = filledWith 0 := by
      rw [blankReader, List.getD_eq_getElem?_getD, List.getElem?_replicate] at hdev
      split at hdev
      · exact (Option.some.inj hdev).symm
      · cases hdev
    rw [hmem]
    rfl
  goesOn := by
    intro index offset size e h
    cases h

theorem blankReader_reads {n index : Nat} (pool : Pool) (h : index < n) (offset size : Nat) :
    (blankContents.io (blankReader n pool)).readLeaf (some index) offset size =
      .ok (List.replicate size 0) := by
  have hdevice : (blankReader n pool).device (some index) = some (index, filledWith 0) := by
    rw [Reader.device, blankReader, Option.bind_some, List.getD_eq_getElem?_getD,
      List.getElem?_replicate, if_pos h]
    rfl
  rw [Contents.io]
  dsimp only
  rw [hdevice]
  rfl

theorem someLost_of_not_reads {node : Node} (hgood : Good node) (hpos : 0 < node.span)
    (hspan : node.span ≤ 2 ^ 25) (hreads : node.reads = false) : SomeLost node := by
  have hlt : ∀ index ∈ node.devices, index < node.devices.sum + 1 :=
    fun index hindex => Nat.lt_succ_of_le (List.le_sum_of_mem hindex)
  let pool := knowingPool node (List.replicate node.span 0)
  have hr := blankReader_steady (node.devices.sum + 1) pool
  have hs := startState_quiet blankContents
  have hle : node.span ≤ 2 ^ 32 := hspan.trans (by decide)
  have hholds := hgood.holds_blank
    (fun index hindex => blankReader_reads pool (hlt index hindex)) node.span hpos hle
      (dvd_refl _)
  refine ⟨Unit, _, blankContents, _, startDva, knownPointer node.span, _, hr, hs, by decide, hpos,
    hspan, hholds, ?_, ?_⟩
  · exact (knowingPool_verdict node _ _ _).trans (if_pos rfl)
  · rw [readVerified_steady hr hs]
    exact hgood.lost pool (blankContents.absent _) 0 rfl hpos hle (dvd_refl _) hreads

/-- The judgement is right unless it counts too little parity. -/
theorem topologySound_iff {tree : VdevNode} {members : List Member} {ashift : Nat}
    (hplain : Plain ashift tree) (hmembers : AlikePresent members)
    (hspan : (Node.fromTree members ashift tree).span ≤ 2 ^ 25) :
    TopologySound tree members ashift ↔
      (tree.kind = "raidz" → nodeReadable members (recordParity tree) = true →
        nodeReadable members tree = true) := by
  have hgood : Good (Node.fromTree members ashift tree) := hplain.good
  have hreads := hplain.reads_eq hmembers
  constructor
  · intro h hkind hrecorded
    by_contra hrejected
    exact not_someLost hgood (hreads.trans hrecorded)
      (h.rejected hkind (by simpa using hrejected))
  · intro h
    refine { accepted := fun hreadable => ?_, rejected := fun hkind hrejected => ?_ }
    · exact allRead_of_reads hgood (hreads.trans (hplain.readable_recordParity hreadable))
    · refine someLost_of_not_reads hgood hplain.span_pos hspan (hreads.trans ?_)
      by_contra hrecorded
      rw [h hkind (by simpa using hrecorded)] at hrejected
      cases hrejected

/-- The bound on the span is met where no RAID-Z is inside another, as on the pools there are. -/
theorem span_le {nparity ashift : Nat} {children : List Node} (hashift : ashift ≤ 16)
    (hwide : children.length ≤ nparity + 255)
    (hchildren : ∀ child ∈ children, child.span = 512) :
    (Node.raidz nparity ashift children).span ≤ 2 ^ 25 := by
  have hspan : spanOf children = 512 := by
    clear hwide
    induction children with
    | nil => rfl
    | cons node nodes ih =>
      rw [spanOf, hchildren node List.mem_cons_self,
        ih (fun n hn => hchildren n (List.mem_cons_of_mem _ hn)), Nat.lcm_self]
  have hlcm : Nat.lcm (2 ^ ashift) 512 ≤ 2 ^ 16 := by
    refine Nat.le_of_dvd (by decide) (Nat.lcm_dvd (Nat.pow_dvd_pow 2 hashift) ?_)
    exact Nat.pow_dvd_pow 2 (show 9 ≤ 16 by decide)
  rw [Node.span, hspan]
  calc (children.length - nparity) * Nat.lcm (2 ^ ashift) 512
      ≤ 255 * 2 ^ 16 := Nat.mul_le_mul (by omega) hlcm
    _ ≤ 2 ^ 25 := by decide

/-! ## A RAID-Z that records no parity -/

/-- A RAID-Z of two disks, of which one is missing. -/
def unrecordedTree : VdevNode :=
  vdevOf "raidz" 3 none [vdevOf "disk" 1 none [], vdevOf "disk" 2 none []]

def unrecordedMembers : List Member :=
  [{ guid := 1, path := none, present := some 0 }, { guid := 2, path := none, present := none }]

theorem unrecordedTree_plain : Plain 9 unrecordedTree := by
  refine .raidz rfl (fun nparity h => by cases h) (by decide) (by decide) (by decide) ?_
  intro child hchild
  rcases List.mem_pair.mp hchild with rfl | rfl
  · exact .leaf (by decide) rfl
  · exact .leaf (by decide) rfl

theorem unrecordedMembers_alike : AlikePresent unrecordedMembers := by
  unfold AlikePresent
  decide

/-- It is rejected, but nothing of it is lost. -/
theorem unrecorded_not_sound : ¬ TopologySound unrecordedTree unrecordedMembers 9 := by
  intro h
  have hreads : (Node.fromTree unrecordedMembers 9 unrecordedTree).reads = true := by
    decide
  exact not_someLost unrecordedTree_plain.good hreads (h.rejected rfl (by decide))

theorem topologySound_iff_unrecorded :
    TopologySound unrecordedTree unrecordedMembers 9 ↔
      (unrecordedTree.kind = "raidz" →
        nodeReadable unrecordedMembers (recordParity unrecordedTree) = true →
        nodeReadable unrecordedMembers unrecordedTree = true) :=
  topologySound_iff unrecordedTree_plain unrecordedMembers_alike (by decide)

end Topology
end ZvolRescue
