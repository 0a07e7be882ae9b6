import ZvolRescue.Ondisk.NvlistEncode
import ZvolRescue.Ondisk.Seal
import ZvolRescue.Zio.Layout

/-!
# Labels for a hand-written layout

What a label of a member would have said is written out for a member whose label is gone.  It is
read back as it was written (`labelImage_reads`).
-/

namespace ZvolRescue
namespace Zio

open Lib Ondisk Encode Scan
open ZvolRescue.Topology (Member TopVdev)

/-! ## The configuration of a member -/

/-- `encode::list`. -/
def uniqueList (pairs : List (String × Value)) : NvList := .mk 0 1 pairs

def labelChild (c : VdevNode) : NvList :=
  uniqueList [("type", .string "disk"), ("id", .uint64 c.id), ("guid", .uint64 c.guid),
    ("whole_disk", .uint64 0), ("create_txg", .uint64 4)]

namespace LayoutHints

def labelTree (layout : LayoutHints) (t : TopVdev) (m : Member) (asize : Option Nat) : NvList :=
  let tree := [("type", Value.string t.kind), ("id", .uint64 t.id), ("guid", .uint64 t.guid),
      ("ashift", .uint64 layout.ashift), ("create_txg", .uint64 4)] ++
    (t.nparity.map (fun p => ("nparity", Value.uint64 p))).toList ++
    (asize.map (fun a => ("asize", Value.uint64 a))).toList
  -- A single-device top is the leaf itself, not a wrapper.
  if t.kind = "disk" then
    uniqueList (("type", .string "disk") :: tree.filter (fun p => p.1 ≠ "type") ++
      [("guid", .uint64 m.guid)])
  else uniqueList (tree ++ [("children", .listArray (t.tree.children.map labelChild))])

/-- The configuration of a leaf of a top-level vdev. -/
def labelList (layout : LayoutHints) (t : TopVdev) (m : Member) (txg : Nat) (asize : Option Nat) :
    NvList :=
  uniqueList [("version", .uint64 5000), ("name", .string (layout.name.getD "recovered")),
    ("state", .uint64 0), ("txg", .uint64 txg), ("pool_guid", .uint64 (layout.guid.getD 0)),
    ("vdev_children", .uint64 layout.tops.length), ("guid", .uint64 m.guid),
    ("top_guid", .uint64 t.guid), ("vdev_tree", .list (layout.labelTree t m asize))]

/-- What the label of a leaf would have said.  There is none for a leaf that the layout does not
have, where the source stops. -/
def labelNvlist (layout : LayoutHints) (top leaf txg : Nat) (asize : Option Nat) : Option NvList :=
  match layout.assemble.tops[top]? with
  | none => none
  | some t => t.members[leaf]?.map (fun m => layout.labelList t m txg asize)

end LayoutHints

/-- The front of a label that carries a configuration, sealed for one of the four positions on a
vdev of `psize` bytes. -/
def labelImage (h : Hashes) (nv : NvList) (index psize : Nat) : Except String (List UInt8) :=
  let packed := pack nv
  if packed.length + 40 > vdevPhysSize then
    .error (s!"the configuration is {packed.length} bytes, more than the {vdevPhysSize} " ++
      "a label holds")
  else match labelOffsets psize with
    | none => .error s!"a vdev of {psize} bytes is too small to hold four labels"
    | some offsets =>
      match offsets[index]? with
      | none => .error s!"label index {index} is not 0..=3"
      | some offset =>
        let phys := packed ++ List.replicate (vdevPhysSize - packed.length) 0
        .ok (List.replicate vdevPhysOffset 0 ++ sealLabel h phys (offset + vdevPhysOffset))

/-! ## What is small fits -/

section Fits

variable {depth : Nat} {v : List UInt8} {pairs : List (String × Value)}

theorem length_pairBody_le {p : String × Value} (hp : p ∈ pairs) :
    (pairBody p.1 p.2).length + 8 ≤ (putPairs v pairs).length := by
  induction pairs generalizing v with
  | nil => cases hp
  | cons q pairs ih =>
    obtain ⟨name, value⟩ := q
    rw [putPairs_cons]
    rcases List.mem_cons.mp hp with rfl | hp
    · have hrest := length_putPairs (v ++ (be32 (((pairBody name value).length + 8 : Nat) : Int) ++
        be32 (decodedSize name value) ++ pairBody name value)) pairs
      simp only [List.length_append, length_be32] at hrest
      dsimp only
      omega
    · exact ih hp

/-- The name and the value of a pair fit, whatever the length of the pair. -/
def PairFits (depth : Nat) (p : String × Value) : Prop :=
  IsString p.1 ∧ IsI32 (typeOf p.2).2 ∧ ValueFits depth p.2

instance (s : String) : Decidable (IsString s) := inferInstanceAs (Decidable (_ < _))

/-- Pairs that pack into little space fit where their numbers do. -/
theorem pairsFit_of_small (hsmall : (putPairs v pairs).length < 2 ^ 31)
    (hpairs : ∀ p ∈ pairs, PairFits depth p) : PairsFit depth pairs := by
  have hall : ∀ ps : List (String × Value), (∀ p ∈ ps, p ∈ pairs) → PairsFit depth ps := by
    intro ps hps
    induction ps with
    | nil => trivial
    | cons p ps ih =>
      obtain ⟨hp, hrest⟩ := List.forall_mem_cons.mp hps
      obtain ⟨hname, hcount, hvalue⟩ := hpairs p hp
      have hsize := length_pairBody_le (v := v) hp
      exact ⟨hname, hcount, ⟨by omega, by omega⟩, hvalue, ih hrest⟩
  exact hall pairs (fun _ => id)

theorem listFits_of_small (hdepth : 0 < depth) (hcount : pairs.length ≤ nvMaxPairs)
    (hsmall : (putList v (uniqueList pairs)).length < 2 ^ 31)
    (hpairs : ∀ p ∈ pairs, PairFits (depth - 1) p) :
    NvListFits depth (uniqueList pairs) := by
  rw [uniqueList, putList, List.length_append, List.length_append] at hsmall
  have hpairs := pairsFit_of_small (v := v ++ be32 0 ++ be32 (1 : Nat)) (by omega) hpairs
  exact ⟨hdepth, ⟨by decide, by decide⟩, by decide, hcount, hpairs⟩

theorem nvListsFit_of_forall {ls : List NvList} (h : ∀ l ∈ ls, NvListFits depth l) :
    NvListsFit depth ls := by
  induction ls with
  | nil => trivial
  | cons l ls ih =>
    obtain ⟨hl, hls⟩ := List.forall_mem_cons.mp h
    exact ⟨hl, ih hls⟩

theorem length_putLists (body : List UInt8) (ls : List NvList) :
    body.length + ls.length ≤ (putLists body ls).length := by
  induction ls generalizing body with
  | nil => simp [putLists]
  | cons l ls ih =>
    obtain ⟨version, flags, pairs⟩ := l
    have hrest := ih (putList body (.mk version flags pairs))
    have hpairs := length_putPairs (body ++ be32 version ++ be32 flags) pairs
    rw [putLists, List.length_cons]
    rw [putList] at hrest ⊢
    simp only [List.length_append, length_be32] at hrest hpairs ⊢
    omega

theorem length_putList_le (body : List UInt8) {ls : List NvList} {l : NvList} (hl : l ∈ ls) :
    ∃ v, (putList v l).length ≤ (putLists body ls).length := by
  induction ls generalizing body with
  | nil => cases hl
  | cons l' ls ih =>
    rcases List.mem_cons.mp hl with rfl | hl
    · have hrest := length_putLists (putList body l) ls
      exact ⟨body, by rw [putLists]; omega⟩
    · rw [putLists]
      exact ih _ hl

theorem uint64_fits {name : String} {n : Nat} (hname : IsString name) (hn : n < 2 ^ 64) :
    PairFits depth (name, .uint64 n) :=
  ⟨hname, show IsI32 1 from ⟨by decide, by decide⟩, hn⟩

/-- The length of a string is within that of the pair that holds it. -/
theorem string_fits {name s : String} (hname : IsString name)
    (h : (pairBody name (.string s)).length < 2 ^ 31) : PairFits depth (name, .string s) := by
  refine ⟨hname, show IsI32 1 from ⟨by decide, by decide⟩, ?_⟩
  rw [pairBody, putValue, putString] at h
  have hpad := length_pad4 (putString [] name ++ be32 (typeOf (.string s)).1 ++
    be32 (typeOf (.string s)).2 ++ be32 (asBytes s).length ++ asBytes s)
  simp only [List.length_append, length_be32] at hpad h
  show (asBytes s).length < 2 ^ 32
  omega

end Fits

/-! ## The tree in a label -/

/-- A leaf as the label describes it. -/
def labelLeaf (top leaf : Nat) : VdevNode :=
  { kind := "disk", id := leaf, guid := syntheticGuid top leaf, path := none, ashift := none
    asize := none, metaslabArray := none, metaslabShift := none, nparity := none
    draidNdata := none, draidNspares := none, draidNgroups := none, isLog := false
    indirectObject := none, children := [] }

namespace LayoutHints

/-- The GUID of a top-level vdev. -/
def topGuid (top : Nat) : Nat := syntheticGuid top (2 ^ 64 - 1)

/-- A top-level vdev as the labels of its leaves describe it. -/
def labelVdev (layout : LayoutHints) (top : Nat) (hint : TopHint) (asize : Option Nat) : VdevNode :=
  { kind := hint.kind, id := top, guid := topGuid top, path := none, ashift := some layout.ashift
    asize, metaslabArray := none, metaslabShift := none, nparity := hint.nparity
    draidNdata := none, draidNspares := none, draidNgroups := none, isLog := false
    indirectObject := none
    children :=
      if hint.kind = "disk" then [] else (List.range hint.members.length).map (labelLeaf top) }

/-- What the label of a leaf says. -/
def labelConfig (layout : LayoutHints) (top : Nat) (hint : TopHint) (leaf txg : Nat)
    (asize : Option Nat) : LabelConfig :=
  { version := some 5000
    name := some (layout.name.getD "recovered")
    state := some 0
    txg := some txg
    poolGuid := some (layout.guid.getD 0)
    guid := some (syntheticGuid top leaf)
    topGuid := some (topGuid top)
    vdevChildren := some layout.tops.length
    hostid := none
    hostname := none
    featuresForRead := []
    tree := some (layout.labelVdev top hint asize) }

section Tree

variable {layout : LayoutHints} {top leaf txg : Nat} {hint : TopHint} {asize : Option Nat}

theorem diskNodes_eq (ashift top : Nat) (leaves : List (Option Nat)) (id : Nat) (n : Numbering) :
    (diskNodes ashift top leaves id n).1 = (List.range leaves.length).map (fun i =>
      diskNode ashift (id + i) (syntheticGuid top (n.leaf + i))) := by
  induction leaves generalizing id n with
  | nil => rfl
  | cons device leaves ih =>
    rw [diskNodes, ih, List.length_cons, List.range_succ_eq_map, List.map_cons, List.map_map]
    refine List.cons_eq_cons.mpr ⟨rfl, List.map_congr_left (fun i _ => ?_)⟩
    have hleaf : (n.next top device).leaf = n.leaf + 1 := rfl
    rw [Function.comp_apply, hleaf, Nat.succ_eq_add_one, Nat.add_right_comm id,
      Nat.add_right_comm n.leaf, Nat.add_assoc id, Nat.add_assoc n.leaf]

theorem fromNvlist_labelChild (c : VdevNode) (hc : c.guid = syntheticGuid top c.id) :
    VdevNode.fromNvlist (labelChild c) = labelLeaf top c.id := by
  rw [labelChild, uniqueList, VdevNode.fromNvlist]
  simp [VdevNode.ofNvlist, VdevNode.childrenIn, NvList.str, NvList.u64, NvList.get, NvList.pairs,
    labelLeaf, hc]

/-- The tree of a vdev without groups is read back without its dRAID geometry. -/
theorem fromNvlist_labelTree (hflat : hint.children = []) (m : Member) :
    VdevNode.fromNvlist (layout.labelTree (layout.topVdev top hint) m asize) =
      layout.labelVdev top hint asize := by
  obtain ⟨-, hnode, -⟩ := TopHint.node_of_nil layout.ashift top hflat 0 { leaf := 0, members := [] }
  have hchildren : (layout.topVdev top hint).tree.children.map labelChild =
      (List.range hint.members.length).map (fun i =>
        labelChild (diskNode layout.ashift i (syntheticGuid top i))) := by
    rw [topVdev, hnode]
    dsimp only [TopHint.vdevNode]
    rw [diskNodes_eq, List.map_map]
    simp only [Nat.zero_add]
    rfl
  have hguid : (layout.topVdev top hint).guid = topGuid top := by
    rw [topVdev, hnode]
    rfl
  have hnodes : ∀ is : List Nat, VdevNode.nodesOf (is.map (fun i =>
      labelChild (diskNode layout.ashift i (syntheticGuid top i)))) = is.map (labelLeaf top) := by
    intro is
    induction is with
    | nil => rfl
    | cons i is ih =>
      rw [List.map_cons, VdevNode.nodesOf, List.map_cons, ih, fromNvlist_labelChild _ rfl]
      rfl
  unfold labelTree labelVdev
  dsimp only
  rw [hchildren, hguid]
  have hkind : (layout.topVdev top hint).kind = hint.kind := rfl
  have hid : (layout.topVdev top hint).id = top := rfl
  have hparity : (layout.topVdev top hint).nparity = hint.nparity := rfl
  rw [hkind, hid, hparity]
  by_cases hdisk : hint.kind = "disk"
  · rw [if_pos hdisk, if_pos hdisk, uniqueList, VdevNode.fromNvlist]
    cases hint.nparity <;> cases asize <;>
      simp [VdevNode.ofNvlist, VdevNode.childrenIn, NvList.str, NvList.u64, NvList.get,
        NvList.pairs, hdisk]
  · rw [if_neg hdisk, if_neg hdisk, uniqueList, VdevNode.fromNvlist]
    cases hint.nparity <;> cases asize <;>
      simp [VdevNode.ofNvlist, VdevNode.childrenIn, VdevNode.childrenOf, NvList.str, NvList.u64,
        NvList.get, NvList.pairs, hnodes]

variable (txg asize) in
/-- The configuration of a leaf says where it is in the layout. -/
theorem labelNvlist_spec (ht : layout.tops[top]? = some hint) (hflat : hint.children = [])
    (hleaf : leaf < hint.members.length) : ∃ m : Member, m.guid = syntheticGuid top leaf ∧
      layout.labelNvlist top leaf txg asize =
        some (layout.labelList (layout.topVdev top hint) m txg asize) ∧
      LabelConfig.fromNvlist (layout.labelList (layout.topVdev top hint) m txg asize) =
        layout.labelConfig top hint leaf txg asize := by
  obtain ⟨hleaves, hnode, -⟩ := TopHint.node_of_nil layout.ashift top hflat 0
    { leaf := 0, members := [] }
  have hmember : (layout.topVdev top hint).members[leaf]? =
      some { guid := syntheticGuid top leaf, path := none, present := hint.members[leaf] } := by
    rw [TopHint.members_topVdev, hleaves, numbered, List.getElem?_map, List.getElem?_zipIdx,
      List.getElem?_eq_getElem hleaf, Nat.zero_add]
    rfl
  have hguid : (layout.topVdev top hint).guid = topGuid top := by
    rw [topVdev, hnode]
    rfl
  refine ⟨{ guid := syntheticGuid top leaf, path := none, present := hint.members[leaf] }, rfl,
    ?_, ?_⟩
  · rw [labelNvlist, getElem?_tops_assemble, ht, Option.map_some]
    dsimp only
    rw [hmember, Option.map_some]
  · rw [labelList, hguid]
    simp [LabelConfig.fromNvlist, labelConfig, uniqueList, NvList.str, NvList.u64, NvList.list,
      NvList.get, NvList.pairs, fromNvlist_labelTree hflat]

/-! ## Labels that fit -/

/-- The numbers of the layout are of 64 bits. -/
structure Numbers (layout : LayoutHints) (txg : Nat) (asize : Option Nat) : Prop where
  ashift : layout.ashift < 2 ^ 64
  guid : layout.guid.getD 0 < 2 ^ 64
  tops : layout.tops.length < 2 ^ 64
  nparity : ∀ hint ∈ layout.tops, ∀ p, hint.nparity = some p → p < 2 ^ 64
  txg : txg < 2 ^ 64
  asize : ∀ a, asize = some a → a < 2 ^ 64

theorem syntheticGuid_lt (top leaf : Nat) : syntheticGuid top leaf < 2 ^ 64 := by
  rw [syntheticGuid_eq]
  omega

theorem labelChild_fits {depth : Nat} {v : List UInt8} {c : VdevNode} (hdepth : 0 < depth)
    (hid : c.id < 2 ^ 64) (hguid : c.guid < 2 ^ 64)
    (hsmall : (putList v (labelChild c)).length < 2 ^ 31) : NvListFits depth (labelChild c) := by
  refine listFits_of_small hdepth (show 5 ≤ nvMaxPairs by decide) hsmall (fun p hp => ?_)
  simp only [List.mem_cons, List.not_mem_nil, or_false] at hp
  rcases hp with rfl | rfl | rfl | rfl | rfl
  · exact string_fits (by decide +kernel) (by decide +kernel)
  · exact uint64_fits (by decide +kernel) hid
  · exact uint64_fits (by decide +kernel) hguid
  · exact uint64_fits (by decide +kernel) (by decide)
  · exact uint64_fits (by decide +kernel) (by decide)

theorem children_fits {depth : Nat} {v : List UInt8} {ashift count : Nat} {name : String}
    (hdepth : 0 < depth) (hname : IsString name)
    (hsmall : (putLists v (((List.range count).map (fun i =>
      diskNode ashift i (syntheticGuid top i))).map labelChild)).length < 2 ^ 31) :
    PairFits depth (name, .listArray (((List.range count).map (fun i =>
      diskNode ashift i (syntheticGuid top i))).map labelChild)) := by
  have hmany := length_putLists v (((List.range count).map (fun i =>
    diskNode ashift i (syntheticGuid top i))).map labelChild)
  rw [List.length_map, List.length_map, List.length_range] at hmany
  refine ⟨hname, ?_, nvListsFit_of_forall (fun l hl => ?_)⟩
  · show IsI32 ((((List.range count).map _).map labelChild).length : Int)
    rw [List.length_map, List.length_map, List.length_range]
    exact ⟨by omega, by omega⟩
  · obtain ⟨v', hle⟩ := length_putList_le v hl
    obtain ⟨c, hc, rfl⟩ := List.mem_map.mp hl
    obtain ⟨i, hi, rfl⟩ := List.mem_map.mp hc
    have hi := List.mem_range.mp hi
    exact labelChild_fits (v := v') hdepth (show i < 2 ^ 64 by omega) (syntheticGuid_lt _ _)
      (by omega)

theorem labelTree_fits {depth : Nat} {v : List UInt8} {m : Member}
    (hnumbers : Numbers layout txg asize) (hdepth : 1 < depth)
    (ht : layout.tops[top]? = some hint) (hflat : hint.children = [])
    (hm : m.guid = syntheticGuid top leaf)
    (hsmall : (putList v (layout.labelTree (layout.topVdev top hint) m asize)).length < 2 ^ 31) :
    NvListFits depth (layout.labelTree (layout.topVdev top hint) m asize) := by
  obtain ⟨-, hnode, -⟩ := TopHint.node_of_nil layout.ashift top hflat 0 { leaf := 0, members := [] }
  have hlt : top < 2 ^ 64 := (List.getElem?_eq_some_iff.mp ht).1.trans hnumbers.tops
  have hguid : (layout.topVdev top hint).guid < 2 ^ 64 := by
    rw [topVdev, hnode]
    exact syntheticGuid_lt _ _
  have hparity := hnumbers.nparity hint (List.mem_of_getElem? ht)
  have hchildren : (layout.topVdev top hint).tree.children =
      (List.range hint.members.length).map (fun i =>
        diskNode layout.ashift i (syntheticGuid top i)) := by
    rw [topVdev, hnode]
    dsimp only [TopHint.vdevNode]
    rw [diskNodes_eq]
    simp only [Nat.zero_add]
  -- what the label of a disk has in common with the others
  let shared := [("type", Value.string hint.kind), ("id", .uint64 top),
      ("guid", .uint64 (layout.topVdev top hint).guid), ("ashift", .uint64 layout.ashift),
      ("create_txg", .uint64 4)] ++
    (hint.nparity.map (fun p => ("nparity", Value.uint64 p))).toList ++
    (asize.map (fun a => ("asize", Value.uint64 a))).toList
  have hcount : shared.length ≤ 7 := by
    have hparities := Option.length_toList_le
      (o := hint.nparity.map (fun p => ("nparity", Value.uint64 p)))
    have hasizes := Option.length_toList_le (o := asize.map (fun a => ("asize", Value.uint64 a)))
    simp only [shared, List.length_append, List.length_cons, List.length_nil]
    omega
  have hshared : ∀ p ∈ shared, (pairBody p.1 p.2).length < 2 ^ 31 → PairFits (depth - 1) p := by
    intro p hp hbody
    simp only [shared, List.mem_append, List.mem_cons, List.not_mem_nil, or_false,
      Option.mem_toList, Option.map_eq_some_iff] at hp
    rcases hp with ((rfl | rfl | rfl | rfl | rfl) | ⟨n, hn, rfl⟩) | ⟨a, ha, rfl⟩
    · exact string_fits (by decide +kernel) hbody
    · exact uint64_fits (by decide +kernel) hlt
    · exact uint64_fits (by decide +kernel) hguid
    · exact uint64_fits (by decide +kernel) hnumbers.ashift
    · exact uint64_fits (by decide +kernel) (by decide)
    · exact uint64_fits (by decide +kernel) (hparity n hn)
    · exact uint64_fits (by decide +kernel) (hnumbers.asize a ha)
  have hpacked : ∀ pairs, (putList v (uniqueList pairs)).length < 2 ^ 31 →
      ∀ p ∈ pairs, (pairBody p.1 p.2).length < 2 ^ 31 := by
    intro pairs hpairs p hp
    have hle := length_pairBody_le (v := v ++ be32 0 ++ be32 (1 : Nat)) hp
    rw [uniqueList, putList, List.length_append, List.length_append] at hpairs
    omega
  have hlabel : layout.labelTree (layout.topVdev top hint) m asize =
      if hint.kind = "disk" then
        uniqueList (("type", .string "disk") :: shared.filter (fun p => p.1 ≠ "type") ++
          [("guid", .uint64 m.guid)])
      else uniqueList (shared ++ [("children",
        .listArray ((layout.topVdev top hint).tree.children.map labelChild))]) := rfl
  rw [hlabel] at hsmall ⊢
  by_cases hdisk : hint.kind = "disk"
  · rw [if_pos hdisk] at hsmall ⊢
    refine listFits_of_small (by omega) ?_ hsmall (fun p hp => ?_)
    · have hfilter := List.length_filter_le (fun p : String × Value => p.1 ≠ "type") shared
      rw [List.length_append, List.length_cons, List.length_singleton]
      exact (show _ ≤ 9 by omega).trans (by decide)
    · have hbody := hpacked _ hsmall p hp
      rcases List.mem_append.mp hp with hp | hp
      · rcases List.mem_cons.mp hp with rfl | hp
        · exact string_fits (by decide +kernel) hbody
        · exact hshared p (List.mem_filter.mp hp).1 hbody
      · obtain rfl := List.mem_singleton.mp hp
        exact uint64_fits (by decide +kernel) (hm ▸ syntheticGuid_lt _ _)
  · rw [if_neg hdisk] at hsmall ⊢
    refine listFits_of_small (by omega) ?_ hsmall (fun p hp => ?_)
    · rw [List.length_append, List.length_singleton]
      exact (show _ ≤ 8 from Nat.succ_le_succ hcount).trans (by decide)
    · have hbody := hpacked _ hsmall p hp
      rcases List.mem_append.mp hp with hp | hp
      · exact hshared p hp hbody
      · obtain rfl := List.mem_singleton.mp hp
        rw [hchildren, pairBody, putValue] at hbody
        rw [hchildren]
        exact children_fits (by omega) (by decide +kernel) hbody

/-- The configuration of a leaf fits where it packs into little space. -/
theorem labelList_fits {depth : Nat} {v : List UInt8} {m : Member}
    (hnumbers : Numbers layout txg asize) (hdepth : 2 < depth)
    (ht : layout.tops[top]? = some hint) (hflat : hint.children = [])
    (hm : m.guid = syntheticGuid top leaf)
    (hsmall : (putList v (layout.labelList (layout.topVdev top hint) m txg asize)).length <
      2 ^ 31) :
    NvListFits depth (layout.labelList (layout.topVdev top hint) m txg asize) := by
  obtain ⟨-, hnode, -⟩ := TopHint.node_of_nil layout.ashift top hflat 0 { leaf := 0, members := [] }
  refine listFits_of_small (by omega) (show 9 ≤ nvMaxPairs by decide) hsmall (fun p hp => ?_)
  have hbody := length_pairBody_le (v := v ++ be32 0 ++ be32 (1 : Nat)) hp
  rw [labelList, uniqueList, putList, List.length_append, List.length_append] at hsmall
  have hlt : (pairBody p.1 p.2).length < 2 ^ 31 := by omega
  simp only [List.mem_cons, List.not_mem_nil, or_false] at hp
  rcases hp with rfl | rfl | rfl | rfl | rfl | rfl | rfl | rfl | rfl
  · exact uint64_fits (by decide +kernel) (by decide)
  · exact string_fits (by decide +kernel) hlt
  · exact uint64_fits (by decide +kernel) (by decide)
  · exact uint64_fits (by decide +kernel) hnumbers.txg
  · exact uint64_fits (by decide +kernel) hnumbers.guid
  · exact uint64_fits (by decide +kernel) hnumbers.tops
  · exact uint64_fits (by decide +kernel) (hm ▸ syntheticGuid_lt _ _)
  · refine uint64_fits (by decide +kernel) ?_
    rw [topVdev, hnode]
    exact syntheticGuid_lt _ _
  · refine ⟨show IsString "vdev_tree" by decide +kernel,
      show IsI32 1 from ⟨by decide, by decide⟩, ?_⟩
    rw [pairBody, putValue] at hlt
    exact labelTree_fits hnumbers (by omega) ht hflat hm hlt

/-! ## The image of a label -/

theorem parsePacked_padded {l : NvList} (hfits : NvListFits (nvMaxDepth + 1) l) {after : List UInt8}
    (hsmall : (pack l ++ after).length < word) : parsePacked (pack l ++ after) = .ok l := by
  obtain ⟨bytes, hpack, -, hdecodes⟩ := writes_list l [1, 1, 0, 0] hfits rfl
  rw [pack, hpack] at hsmall ⊢
  have hread := hdecodes [1, 1, 0, 0] after hsmall
  exact parsePacked_ok.mpr ⟨by simp, rfl, _, hread⟩

theorem labelImage_ok {h : Hashes} {nv : NvList} {index psize : Nat} {img : List UInt8}
    (himg : labelImage h nv index psize = .ok img) :
    ∃ offsets offset, labelOffsets psize = some offsets ∧ offsets[index]? = some offset ∧
      (pack nv).length + 40 ≤ vdevPhysSize ∧
      img = List.replicate vdevPhysOffset 0 ++ sealLabel h
        (pack nv ++ List.replicate (vdevPhysSize - (pack nv).length) 0)
        (offset + vdevPhysOffset) := by
  rw [labelImage] at himg
  by_cases hroom : (pack nv).length + 40 > vdevPhysSize
  · rw [if_pos hroom] at himg
    cases himg
  · rw [if_neg hroom] at himg
    cases hoffsets : labelOffsets psize with
    | none =>
      rw [hoffsets] at himg
      cases himg
    | some offsets =>
      rw [hoffsets] at himg
      dsimp only at himg
      cases hoffset : offsets[index]? with
      | none =>
        rw [hoffset] at himg
        cases himg
      | some offset =>
        rw [hoffset] at himg
        exact ⟨offsets, offset, rfl, hoffset, Nat.not_lt.mp hroom, (Except.ok.inj himg).symm⟩

/-- The front of a label is read back as it was written, at the position that it was sealed for. -/
theorem physArea_labelImage {h : Hashes} {nv : NvList} {offset : Nat} {img : List UInt8}
    (ring : List UInt8) (hfits : NvListFits (nvMaxDepth + 1) nv)
    (hroom : (pack nv).length + 40 ≤ vdevPhysSize)
    (himg : img = List.replicate vdevPhysOffset 0 ++ sealLabel h
      (pack nv ++ List.replicate (vdevPhysSize - (pack nv).length) 0) (offset + vdevPhysOffset)) :
    img.length = uberblockRingOffset ∧
      parseVdevPhys h (physArea (img ++ ring)) offset = { config := .ok nv, checksum := .ok } := by
  subst himg
  have hphys : vdevPhysSize = 114688 := rfl
  have hsize : eckSize = 40 := rfl
  let phys := pack nv ++ List.replicate (vdevPhysSize - (pack nv).length) 0
  have hlength : phys.length = vdevPhysSize := by
    rw [List.length_append, List.length_replicate]
    omega
  have hsealed : (sealLabel h phys (offset + vdevPhysOffset)).length = vdevPhysSize :=
    (sealEmbedded_length h (by omega) _).trans hlength
  have harea : physArea (List.replicate vdevPhysOffset 0 ++
      sealLabel h phys (offset + vdevPhysOffset) ++ ring) =
        sealLabel h phys (offset + vdevPhysOffset) := by
    have hdrop : (List.replicate vdevPhysOffset 0 ++
        (sealLabel h phys (offset + vdevPhysOffset) ++ ring)).drop vdevPhysOffset =
          sealLabel h phys (offset + vdevPhysOffset) ++ ring :=
      List.drop_left' List.length_replicate
    rw [physArea, List.append_assoc, hdrop]
    exact List.take_left' hsealed
  refine ⟨by rw [List.length_append, List.length_replicate, hsealed]; rfl, ?_⟩
  have htake : (sealLabel h phys (offset + vdevPhysOffset)).take (vdevPhysSize - eckSize) =
      pack nv ++ List.replicate (vdevPhysSize - eckSize - (pack nv).length) 0 := by
    rw [sealLabel, sealEmbedded_take h (by omega) _ (by omega), List.take_append,
      List.take_of_length_le (show (pack nv).length ≤ vdevPhysSize - eckSize by omega),
      List.take_replicate, Nat.min_eq_left (by omega)]
  rw [harea, parseVdevPhys, hsealed, htake, if_pos rfl, parsePacked_padded hfits,
    verify_sealLabel h (by omega)]
  rw [List.length_append, List.length_replicate]
  exact lt_of_le_of_lt (show _ ≤ 2 * vdevPhysSize by omega) (by decide)

theorem lastMaxBy_mem {α : Type} {key : α → Nat} {l : List α} {a : α}
    (h : lastMaxBy key l = some a) : a ∈ l := by
  induction l generalizing a with
  | nil => cases h
  | cons b l ih =>
    rw [lastMaxBy] at h
    cases hrest : lastMaxBy key l with
    | none =>
      rw [hrest] at h
      cases h
      exact List.mem_cons_self
    | some c =>
      rw [hrest] at h
      dsimp only at h
      split at h
      · cases h
        exact List.mem_cons_of_mem _ (ih hrest)
      · cases h
        exact List.mem_cons_self

/-- The only label that verified is the one to trust. -/
theorem pickBestLabel_only {labels : List LabelScan} {index : Nat} {l : LabelScan}
    (hl : labels[index]? = some l) (hverified : l.verified = true)
    (honly : ∀ j l', labels[j]? = some l' → l'.verified = true → j = index) :
    pickBestLabel labels = some index := by
  have hmem : (l, index) ∈ labels.zipIdx.filter (fun p => p.1.verified) :=
    List.mem_filter.mpr ⟨List.mk_mem_zipIdx_iff_getElem?.mpr hl, hverified⟩
  rw [pickBestLabel]
  dsimp only
  cases hbest : lastMaxBy (fun p => p.1.txg) (labels.zipIdx.filter (fun p => p.1.verified)) with
  | none =>
    cases hall : labels.zipIdx.filter (fun p => p.1.verified) with
    | nil =>
      rw [hall] at hmem
      cases hmem
    | cons p rest =>
      rw [hall, lastMaxBy] at hbest
      split at hbest
      · cases hbest
      · split at hbest <;> cases hbest
  | some best =>
    obtain ⟨hin, hok⟩ := List.mem_filter.mp (lastMaxBy_mem hbest)
    obtain ⟨l', j⟩ := best
    obtain rfl := honly j l' (List.mk_mem_zipIdx_iff_getElem?.mp hin) hok
    rfl

/-- A label that is put in its place verifies there and says where its leaf is in the layout, and
the ring of uberblocks behind it is as it was.  Where no other label of the device verifies, it is
the one that is trusted. -/
theorem labelImage_reads {h : Hashes} {nv : NvList} {index psize : Nat} {img : List UInt8}
    (hnumbers : Numbers layout txg asize) (ht : layout.tops[top]? = some hint)
    (hflat : hint.children = []) (hleaf : leaf < hint.members.length)
    (hnv : layout.labelNvlist top leaf txg asize = some nv)
    (himg : labelImage h nv index psize = .ok img) :
    ∃ offsets offset, labelOffsets psize = some offsets ∧ offsets[index]? = some offset ∧
      ∀ ring, (img ++ ring).drop uberblockRingOffset = ring ∧
        (∀ vdevAshift, (scanLabel h vdevAshift index offset (img ++ ring)).verified = true ∧
          (scanLabel h vdevAshift index offset (img ++ ring)).typed =
            some (layout.labelConfig top hint leaf txg asize)) ∧
        ∀ dev base raw, raw[index]? = some (img ++ ring) →
          (∀ j l, (scanLabels h dev base psize offsets raw).labels[j]? = some l →
            l.verified = true → j = index) →
          (scanLabels h dev base psize offsets raw).config =
            some (layout.labelConfig top hint leaf txg asize) := by
  obtain ⟨m, hm, hspec, hconfig⟩ := labelNvlist_spec txg asize ht hflat hleaf
  obtain rfl := Option.some.inj (hnv.symm.trans hspec)
  obtain ⟨offsets, offset, hoffsets, hoffset, hroom, himg⟩ := labelImage_ok himg
  have hsmall : vdevPhysSize < 2 ^ 31 := by decide
  have hpacked : (putList [1, 1, 0, 0]
      (layout.labelList (layout.topVdev top hint) m txg asize)).length < 2 ^ 31 := by
    rw [pack] at hroom
    omega
  have hfits : NvListFits (nvMaxDepth + 1)
      (layout.labelList (layout.topVdev top hint) m txg asize) :=
    labelList_fits hnumbers (by decide) ht hflat hm hpacked
  refine ⟨offsets, offset, hoffsets, hoffset, fun ring => ?_⟩
  obtain ⟨hlength, hparsed⟩ := physArea_labelImage ring hfits hroom himg
  have hlabel : ∀ vdevAshift, (scanLabel h vdevAshift index offset (img ++ ring)).verified = true ∧
      (scanLabel h vdevAshift index offset (img ++ ring)).typed =
        some (layout.labelConfig top hint leaf txg asize) := by
    intro vdevAshift
    have hphys : (scanLabel h vdevAshift index offset (img ++ ring)).config =
        some (layout.labelList (layout.topVdev top hint) m txg asize) ∧
        (scanLabel h vdevAshift index offset (img ++ ring)).physChecksum = .ok := by
      rw [scanLabel, hparsed]
      exact ⟨rfl, rfl⟩
    rw [LabelScan.verified, LabelScan.typed, hphys.1, hphys.2, Option.map_some, hconfig]
    exact ⟨rfl, rfl⟩
  refine ⟨hlength ▸ List.drop_left, hlabel, fun dev base raw hraw honly => ?_⟩
  obtain ⟨vdevAshift, hlabels⟩ : ∃ vdevAshift,
      (scanLabels h dev base psize offsets raw).labels[index]? =
        some (scanLabel h vdevAshift index offset (img ++ ring)) := by
    refine ⟨?ashift, ?_⟩
    rotate_left
    · have hzip : (offsets.zip raw)[index]? = some (offset, img ++ ring) :=
        List.getElem?_zip_eq_some.mpr ⟨hoffset, hraw⟩
      rw [scanLabels, List.getElem?_map, List.getElem?_zipIdx, hzip, Option.map_some,
        Option.map_some, Nat.zero_add]
  have hbest := pickBestLabel_only hlabels (hlabel vdevAshift).1 honly
  have htrusted : (scanLabels h dev base psize offsets raw).bestLabel = some index := hbest
  rw [DeviceScan.config, htrusted, Option.bind_some, hlabels, Option.bind_some,
    (hlabel vdevAshift).2]

end Tree

/-- A top-level vdev of this kind over the first devices. -/
def oneTop (kind : String) (count : Nat) : LayoutHints :=
  { name := some "tank"
    guid := some 7
    ashift := 9
    tops := [{ kind, nparity := none, draidNdata := none, draidNspares := none
               draidNgroups := none, members := (List.range count).map some, children := [] }] }

theorem labelImage_reads_mirror : ∃ nv img offset,
    (oneTop "mirror" 2).labelNvlist 0 1 4 none = some nv ∧
      labelImage noHashes nv 0 (2 ^ 20) = .ok img ∧
      (scanLabel noHashes none 0 offset (img ++ [])).verified = true := by
  have ht : (oneTop "mirror" 2).tops[0]? = some (oneTop "mirror" 2).tops[0] := rfl
  obtain ⟨m, -, hnv, -⟩ := labelNvlist_spec 4 none ht rfl (show 1 < 2 by decide)
  have hnumbers : Numbers (oneTop "mirror" 2) 4 none :=
    { ashift := by decide
      guid := by decide
      tops := by decide
      nparity := List.forall_mem_singleton.mpr (fun p hp => by cases hp)
      txg := by decide
      asize := fun a ha => by cases ha }
  have hsize : (((oneTop "mirror" 2).labelNvlist 0 1 4 none).map
      (fun nv => (pack nv).length)).getD 0 + 40 ≤ vdevPhysSize := by
    decide +kernel
  rw [hnv, Option.map_some, Option.getD_some] at hsize
  have hoffsets : labelOffsets (2 ^ 20) = some [0, 262144, 524288, 786432] := by decide
  have himg : ∃ img, labelImage noHashes ((oneTop "mirror" 2).labelList
      ((oneTop "mirror" 2).topVdev 0 (oneTop "mirror" 2).tops[0]) m 4 none) 0 (2 ^ 20) =
        .ok img := by
    rw [labelImage, if_neg (Nat.not_lt.mpr hsize), hoffsets]
    exact ⟨_, rfl⟩
  obtain ⟨img, himg⟩ := himg
  obtain ⟨offsets, offset, -, -, hreads⟩ :=
    labelImage_reads hnumbers ht rfl (show 1 < 2 by decide) hnv himg
  exact ⟨_, img, offset, hnv, himg, ((hreads []).2.1 none).1⟩

end LayoutHints

end Zio
end ZvolRescue
