import ZvolRescue.Topology.Order
import ZvolRescue.Topology.Stale
import ZvolRescue.Zio.Emitted

/-!
# The pool of the emitted labels

Members that carry the labels of a layout are assembled to the pool that the layout describes
(`labels_assemble`).  The geometry of a dRAID is not in its labels, and the label of a single disk
is set aside, because its tree does not name the disk (`disk_label_stale`).
-/

namespace ZvolRescue
namespace Zio

open Lib Ondisk Scan ZvolRescue.Topology

namespace LayoutHints

/-- The layout puts a device at a leaf. -/
def Names (layout : LayoutHints) (top : Nat) (hint : TopHint) (leaf device : Nat) : Prop :=
  layout.tops[top]? = some hint ∧ hint.members[leaf]? = some (some device)

/-- The devices of a layout carry the labels that were written for them. -/
structure Emitted (layout : LayoutHints) (txg : Nat) (asize : Option Nat)
    (scans : List (Option DeviceScan)) : Prop where
  flat : ∀ hint ∈ layout.tops, hint.children = []
  supplied : ∀ hint ∈ layout.tops, ∃ device, some device ∈ hint.members
  tops : layout.tops.length ≤ 2 ^ 16
  members : ∀ hint ∈ layout.tops, hint.members.length < 2 ^ 32
  committed : txg ≠ 0
  labels : ∀ device config,
    scans[device]?.bind (fun s => s.bind DeviceScan.config) = some config ↔
      ∃ top hint leaf, layout.Names top hint leaf device ∧
        config = layout.labelConfig top hint leaf txg asize

section Labels

variable {layout : LayoutHints} {txg : Nat} {asize : Option Nat} {scans : List (Option DeviceScan)}

theorem syntheticGuid_inj_tops {top top' leaf leaf' : Nat} (htop : top < 2 ^ 16)
    (htop' : top' < 2 ^ 16) (h : syntheticGuid top leaf = syntheticGuid top' leaf') :
    top = top' ∧ leaf % 2 ^ 32 = leaf' % 2 ^ 32 := by
  rw [syntheticGuid_eq, syntheticGuid_eq, Nat.mod_eq_of_lt htop, Nat.mod_eq_of_lt htop'] at h
  omega

theorem Emitted.mem_configs (h : Emitted layout txg asize scans) {e : Topology.Entry} :
    e ∈ configs scans ↔ ∃ top hint leaf, layout.Names top hint leaf e.1 ∧
      e.2 = layout.labelConfig top hint leaf txg asize := by
  rw [Topology.mem_configs, h.labels]
  refine and_iff_left_of_imp ?_
  rintro ⟨top, hint, leaf, -, hconfig⟩
  rw [hconfig]
  rfl

theorem Emitted.top_lt (h : Emitted layout txg asize scans) {top : Nat} {hint : TopHint}
    (ht : layout.tops[top]? = some hint) : top < 2 ^ 16 :=
  (List.getElem?_eq_some_iff.mp ht).1.trans_le h.tops

/-- One GUID is of one leaf, and none of a leaf is of a top-level vdev. -/
theorem Emitted.guid_inj (h : Emitted layout txg asize scans) {top top' leaf leaf' : Nat}
    {hint hint' : TopHint} (ht : layout.tops[top]? = some hint)
    (ht' : layout.tops[top']? = some hint')
    (hleaf : leaf < hint.members.length) (hleaf' : leaf' < hint'.members.length)
    (hguid : syntheticGuid top leaf = syntheticGuid top' leaf') : top = top' ∧ leaf = leaf' := by
  obtain ⟨htop, hmod⟩ := syntheticGuid_inj_tops (h.top_lt ht) (h.top_lt ht') hguid
  have hlt := h.members hint (List.mem_of_getElem? ht)
  have hlt' := h.members hint' (List.mem_of_getElem? ht')
  rw [Nat.mod_eq_of_lt (hleaf.trans hlt), Nat.mod_eq_of_lt (hleaf'.trans hlt')] at hmod
  exact ⟨htop, hmod⟩

theorem Names.lt {top leaf device : Nat} {hint : TopHint}
    (h : layout.Names top hint leaf device) : leaf < hint.members.length :=
  (List.getElem?_eq_some_iff.mp h.2).1

theorem Emitted.tree_inj (h : Emitted layout txg asize scans) {top top' : Nat}
    {hint hint' : TopHint} (ht : layout.tops[top]? = some hint)
    (ht' : layout.tops[top']? = some hint')
    (hguid : topGuid top = topGuid top') :
    layout.labelVdev top hint asize = layout.labelVdev top' hint' asize := by
  obtain ⟨rfl, -⟩ := syntheticGuid_inj_tops (h.top_lt ht) (h.top_lt ht') hguid
  rw [ht] at ht'
  cases ht'
  rfl

theorem Emitted.onePool (h : Emitted layout txg asize scans) : OnePool (configs scans) := by
  constructor
  · intro e he e' he'
    obtain ⟨_, _, _, -, hconfig⟩ := h.mem_configs.mp he
    obtain ⟨_, _, _, -, hconfig'⟩ := h.mem_configs.mp he'
    rw [poolGuidOf, poolGuidOf, hconfig, hconfig']
    rfl
  · intro e he e' he' _ _
    obtain ⟨top, hint, _, hnames, hconfig⟩ := h.mem_configs.mp he
    obtain ⟨top', hint', _, hnames', hconfig'⟩ := h.mem_configs.mp he'
    rw [hconfig, hconfig']
    constructor
    · simp only [poolFacts, labelConfig]
    · intro _ tree htree tree' htree' hguid
      obtain rfl := Option.mem_some_iff.mp htree
      obtain rfl := Option.mem_some_iff.mp htree'
      exact h.tree_inj hnames.1 hnames'.1 hguid

theorem leaves_labelVdev {top : Nat} {hint : TopHint} (hkind : hint.kind ≠ "disk")
    (hsome : hint.members ≠ []) : (layout.labelVdev top hint asize).leaves =
      (List.range hint.members.length).map (labelLeaf top) := by
  have hchildren : (layout.labelVdev top hint asize).children =
      (List.range hint.members.length).map (labelLeaf top) := if_neg hkind
  have hleaf : ∀ i, (labelLeaf top i).leaves = [labelLeaf top i] :=
    fun i => VdevNode.leaves_of_nil rfl
  rw [VdevNode.leaves_of_cons (by simpa [hchildren] using hsome), hchildren, List.flatMap_map]
  simp only [hleaf]
  exact List.flatMap_pure_eq_map _ _

/-! ## Which vdevs there are -/

theorem Emitted.describes (h : Emitted layout txg asize scans) {t : Nat × VdevNode} :
    Describes (configs scans) t ↔ ∃ top hint, layout.tops[top]? = some hint ∧
      t = (txg, layout.labelVdev top hint asize) := by
  constructor
  · rintro ⟨e, he, -, htree, htxg⟩
    obtain ⟨top, hint, leaf, hnames, hconfig⟩ := h.mem_configs.mp he
    refine ⟨top, hint, hnames.1, Prod.ext ?_ ?_⟩
    · rw [htxg, txgOf, hconfig]
      rfl
    · rw [hconfig] at htree
      exact (Option.some.inj htree).symm
  · rintro ⟨top, hint, ht, rfl⟩
    obtain ⟨device, hdevice⟩ := h.supplied hint (List.mem_of_getElem? ht)
    obtain ⟨leaf, hleaf⟩ := List.mem_iff_getElem?.mp hdevice
    exact ⟨(device, layout.labelConfig top hint leaf txg asize),
      h.mem_configs.mpr ⟨top, hint, leaf, ⟨ht, hleaf⟩, rfl⟩, h.committed, rfl, rfl⟩

theorem Emitted.newest (h : Emitted layout txg asize scans) {t : Nat × VdevNode} :
    Newest (configs scans) t ↔ Describes (configs scans) t := by
  refine and_iff_left_of_imp (fun ht u hu _ => ?_)
  obtain ⟨_, _, -, rfl⟩ := h.describes.mp ht
  obtain ⟨_, _, -, rfl⟩ := h.describes.mp hu
  exact le_rfl

theorem Emitted.committed_iff (h : Emitted layout txg asize scans) {t : Nat × VdevNode} :
    Committed (configs scans) t ↔ ∃ top hint, layout.tops[top]? = some hint ∧
      t = (txg, layout.labelVdev top hint asize) := by
  rw [Committed, h.newest, h.describes]
  refine and_iff_left_of_imp ?_
  rintro ⟨top, hint, ht, rfl⟩ u hu hid
  obtain ⟨top', hint', ht', rfl⟩ := h.describes.mp (h.newest.mp hu)
  obtain rfl : top' = top := hid
  rw [ht] at ht'
  cases ht'
  exact Or.inr ⟨rfl, le_rfl⟩

/-- A label is current unless it is of a single disk. -/
theorem Emitted.current_iff (h : Emitted layout txg asize scans) {e : Topology.Entry}
    {top leaf : Nat} {hint : TopHint} (hnames : layout.Names top hint leaf e.1)
    (hconfig : e.2 = layout.labelConfig top hint leaf txg asize) :
    Current (configs scans) e ↔ hint.kind ≠ "disk" := by
  have htop : Newest (configs scans) (txg, layout.labelVdev top hint asize) :=
    h.newest.mpr (h.describes.mpr ⟨top, hint, hnames.1, rfl⟩)
  have hlt := hnames.lt.trans (h.members hint (List.mem_of_getElem? hnames.1))
  have hother : topGuid top ≠ syntheticGuid top leaf := by
    intro heq
    have hmod := (syntheticGuid_inj_tops (h.top_lt hnames.1) (h.top_lt hnames.1) heq).2
    rw [Nat.mod_eq_of_lt hlt] at hmod
    have hmax := hnames.lt.trans_le (Nat.le_of_lt_succ (h.members hint
      (List.mem_of_getElem? hnames.1)))
    omega
  rw [Current, hconfig]
  constructor
  · rintro ⟨-, hcurrent⟩ hdisk
    have hnamed := (hcurrent _ htop rfl).2 _ rfl
    rw [named, labelVdev, if_pos hdisk, VdevNode.leaves_of_nil rfl] at hnamed
    simp [hother] at hnamed
  · intro hkind
    refine ⟨?_, fun t ht htree => ?_⟩
    · rw [txgOf, hconfig]
      exact h.committed
    · obtain ⟨top', hint', ht', rfl⟩ := h.describes.mp (h.newest.mp ht)
      have hguid : topGuid top = topGuid top' := Option.some.inj htree
      refine ⟨h.committed_iff.mpr ⟨top', hint', ht', rfl⟩, fun leaf' hleaf' => ?_⟩
      cases hleaf'
      rw [← h.tree_inj hnames.1 ht' hguid, named, decide_eq_true_eq,
        leaves_labelVdev hkind (List.ne_nil_of_mem (List.mem_of_getElem? hnames.2))]
      refine Or.inr (List.any_eq_true.mpr ⟨labelLeaf top leaf, ?_, by simp [labelLeaf]⟩)
      exact List.mem_map.mpr ⟨leaf, List.mem_range.mpr hnames.lt, rfl⟩

/-! ## Which device each leaf is -/

theorem Emitted.owns (h : Emitted layout txg asize scans) {e : Topology.Entry} {top leaf : Nat}
    {hint : TopHint} (ht : layout.tops[top]? = some hint) (hleaf : leaf < hint.members.length) :
    Owns (configs scans) (syntheticGuid top leaf) e ↔ hint.kind ≠ "disk" ∧
      layout.Names top hint leaf e.1 ∧ e.2 = layout.labelConfig top hint leaf txg asize := by
  constructor
  · rintro ⟨he, hcurrent, hguid⟩
    obtain ⟨top', hint', leaf', hnames, hconfig⟩ := h.mem_configs.mp he
    have hkind := (h.current_iff hnames hconfig).mp hcurrent
    rw [hconfig] at hguid
    have hsame : syntheticGuid top' leaf' = syntheticGuid top leaf := Option.some.inj hguid
    obtain ⟨rfl, rfl⟩ := h.guid_inj hnames.1 ht hnames.lt hleaf hsame
    obtain rfl := Option.some.inj (hnames.1.symm.trans ht)
    exact ⟨hkind, hnames, hconfig⟩
  · rintro ⟨hkind, hnames, hconfig⟩
    refine ⟨h.mem_configs.mpr ⟨top, hint, leaf, hnames, hconfig⟩,
      (h.current_iff hnames hconfig).mpr hkind, ?_⟩
    rw [hconfig]
    rfl

/-- A leaf is the device that the layout puts there. -/
theorem Emitted.leafOwner (h : Emitted layout txg asize scans) {top leaf : Nat} {hint : TopHint}
    (ht : layout.tops[top]? = some hint) (hkind : hint.kind ≠ "disk")
    (hleaf : leaf < hint.members.length) :
    leafOwner (configs scans) (staleMembers (configs scans)) (syntheticGuid top leaf) =
      hint.members[leaf] := by
  ext device
  rw [leafOwner_of_unique h.onePool (configs_sorted scans)]
  · constructor
    · rintro ⟨e, he, rfl⟩
      have hnames := ((h.owns ht hleaf).mp he).2.1
      exact (List.getElem?_eq_some_iff.mp hnames.2).2
    · intro hdevice
      refine ⟨(device, layout.labelConfig top hint leaf txg asize),
        (h.owns ht hleaf).mpr ⟨hkind, ⟨ht, ?_⟩, rfl⟩, rfl⟩
      rw [List.getElem?_eq_getElem hleaf, hdevice]
  · intro e e' he he'
    have hnames := ((h.owns ht hleaf).mp he).2.1
    have hnames' := ((h.owns ht hleaf).mp he').2.1
    exact Option.some.inj (Option.some.inj (hnames.2.symm.trans hnames'.2))

theorem Emitted.isStale (h : Emitted layout txg asize scans) {device : Nat} :
    isStale (staleMembers (configs scans)) device = true ↔
      ∃ top hint leaf, layout.Names top hint leaf device ∧ hint.kind = "disk" := by
  rw [isStale_staleMembers h.onePool]
  constructor
  · rintro ⟨e, he, rfl, hout⟩
    obtain ⟨top, hint, leaf, hnames, hconfig⟩ := h.mem_configs.mp he
    rw [h.current_iff hnames hconfig, not_not] at hout
    exact ⟨top, hint, leaf, hnames, hout⟩
  · rintro ⟨top, hint, leaf, hnames, hkind⟩
    refine ⟨(device, layout.labelConfig top hint leaf txg asize),
      h.mem_configs.mpr ⟨top, hint, leaf, hnames, rfl⟩, rfl, ?_⟩
    rw [h.current_iff hnames rfl, not_not]
    exact hkind

/-! ## The pool -/

theorem Emitted.liveTops (h : Emitted layout txg asize scans) :
    sortByKey (fun t => t.2.id) (liveTops (topsByGuid (configs scans))) =
      layout.tops.zipIdx.map (fun hint => (txg, layout.labelVdev hint.2 hint.1 asize)) := by
  have hmem : ∀ t,
      t ∈ sortByKey (fun t => t.2.id) (Topology.liveTops (topsByGuid (configs scans))) ↔
      t ∈ layout.tops.zipIdx.map (fun hint => (txg, layout.labelVdev hint.2 hint.1 asize)) := by
    intro t
    rw [mem_sortByKey, mem_liveTops h.onePool, h.committed_iff, List.mem_map]
    constructor
    · rintro ⟨top, hint, ht, rfl⟩
      exact ⟨(hint, top), List.mk_mem_zipIdx_iff_getElem?.mpr ht, rfl⟩
    · rintro ⟨⟨hint, top⟩, ht, rfl⟩
      exact ⟨top, hint, List.mk_mem_zipIdx_iff_getElem?.mp ht, rfl⟩
  have hsorted : (layout.tops.zipIdx.map (fun hint =>
      (txg, layout.labelVdev hint.2 hint.1 asize))).Pairwise (fun t u => t.2.id < u.2.id) := by
    refine List.pairwise_map.mpr ?_
    show layout.tops.zipIdx.Pairwise (fun a b => a.2 < b.2)
    rw [← List.pairwise_map, List.zipIdx_map_snd]
    exact List.pairwise_lt_range'
  have hnodup : (sortByKey (fun t => t.2.id)
      (Topology.liveTops (topsByGuid (configs scans)))).Nodup := by
    refine (sortByKey_perm _ _).nodup_iff.mpr (List.Nodup.filter _ ?_)
    exact (topsByGuid_sorted _).imp (fun hlt heq => by rw [heq] at hlt; exact lt_irrefl _ hlt)
  have hnodup' : (layout.tops.zipIdx.map (fun hint =>
      (txg, layout.labelVdev hint.2 hint.1 asize))).Nodup :=
    hsorted.imp (fun hlt heq => by rw [heq] at hlt; exact lt_irrefl _ hlt)
  refine ((List.perm_ext_iff_of_nodup hnodup hnodup').mpr hmem).eq_of_pairwise ?_
    (sortByKey_sorted _ _) (hsorted.imp le_of_lt)
  intro t u ht hu hle hle'
  obtain ⟨hint, hhint, rfl⟩ := List.mem_map.mp ((hmem t).mp ht)
  obtain ⟨hint', hhint', rfl⟩ := List.mem_map.mp hu
  have hid : hint.2 = hint'.2 := le_antisymm hle hle'
  rw [List.mem_zipIdx_iff_getElem?] at hhint hhint'
  rw [hid, hhint'] at hhint
  rw [Prod.ext (Option.some.inj hhint).symm hid]

theorem Emitted.assembleTops (h : Emitted layout txg asize scans) : assembleTops (configs scans) =
    layout.tops.zipIdx.map (fun hint => Topology.topVdev
      (Topology.leafOwner (configs scans) (staleMembers (configs scans)))
      (layout.labelVdev hint.2 hint.1 asize)) := by
  rw [assembleTops_eq, h.liveTops, List.map_map]
  rfl

theorem Emitted.assemble (h : Emitted layout txg asize scans) (hsome : layout.tops ≠ []) :
    Topology.assemble scans = [assemblePool (layout.guid.getD 0) (configs scans)] := by
  have hguid : ∀ e ∈ configs scans, poolGuidOf e = layout.guid.getD 0 := by
    intro e he
    obtain ⟨_, _, _, -, hconfig⟩ := h.mem_configs.mp he
    rw [poolGuidOf, hconfig]
    rfl
  have hkeys : sortedKeys poolGuidOf (configs scans) = [layout.guid.getD 0] := by
    obtain ⟨hint, rest, hlayout⟩ := List.exists_cons_of_ne_nil hsome
    have ht : layout.tops[0]? = some hint := by rw [hlayout, List.getElem?_cons_zero]
    obtain ⟨e, he, -⟩ := h.describes.mpr ⟨0, hint, ht, rfl⟩
    have hmem : ∀ k, k ∈ sortedKeys poolGuidOf (configs scans) ↔ k = layout.guid.getD 0 := by
      intro k
      rw [mem_sortedKeys]
      constructor
      · rintro ⟨e, he, rfl⟩
        exact hguid e he
      · rintro rfl
        exact ⟨e, he, hguid e he⟩
    have hnodup : (sortedKeys poolGuidOf (configs scans)).Nodup :=
      (sortedKeys_sorted _).imp (fun hlt => ne_of_lt hlt)
    exact List.perm_singleton.mp ((List.perm_ext_iff_of_nodup hnodup (List.nodup_singleton _)).mpr
      (fun k => by rw [hmem, List.mem_singleton]))
  rw [Topology.assemble, hkeys, List.map_singleton,
    List.filter_eq_self.mpr (fun e he => decide_eq_true (hguid e he))]

/-- A top-level vdev as it is listed. -/
def listed (t : TopVdev) : Nat × Nat × String × String × Option Nat × Option Nat × List Member :=
  (t.id, t.guid, t.name, t.kind, t.nparity, t.ashift, t.members)

theorem displayName_labelVdev (top : Nat) (hint : TopHint)
    (hkind : hint.kind = "mirror" ∨ hint.kind = "raidz" ∨ hint.kind = "draid") :
    (layout.labelVdev top hint asize).displayName = s!"{hint.displayKind}-{top}" := by
  have hnode : (layout.labelVdev top hint asize).kind = hint.kind ∧
      (layout.labelVdev top hint asize).nparity = hint.nparity ∧
      (layout.labelVdev top hint asize).id = top := ⟨rfl, rfl, rfl⟩
  rw [VdevNode.displayName, hnode.1, hnode.2.1, hnode.2.2, if_pos hkind, TopHint.displayKind]
  have htext : ∀ s : String, toString s = s := fun _ => rfl
  rcases hkind with h | h | h
  all_goals cases hint.nparity
  all_goals simp [h, Option.filter, htext]

theorem Emitted.listed_topVdev (h : Emitted layout txg asize scans) {top : Nat} {hint : TopHint}
    (ht : layout.tops[top]? = some hint)
    (hkind : hint.kind = "mirror" ∨ hint.kind = "raidz" ∨ hint.kind = "draid") :
    listed (Topology.topVdev (Topology.leafOwner (configs scans) (staleMembers (configs scans)))
      (layout.labelVdev top hint asize)) = listed (layout.topVdev top hint) := by
  have hdisk : hint.kind ≠ "disk" := by
    rcases hkind with h | h | h <;> rw [h] <;> decide
  have hin := List.mem_of_getElem? ht
  obtain ⟨device, hdevice⟩ := h.supplied hint hin
  obtain ⟨hleaves, hnode, -⟩ := TopHint.node_of_nil layout.ashift top (h.flat hint hin) 0
    { leaf := 0, members := [] }
  have hmembers : (layout.labelVdev top hint asize).leaves.map (fun leaf =>
      ({ guid := leaf.guid, path := leaf.path
         present := Topology.leafOwner (configs scans) (staleMembers (configs scans)) leaf.guid } :
        Member)) = (layout.topVdev top hint).members := by
    rw [leaves_labelVdev hdisk (List.ne_nil_of_mem hdevice), TopHint.members_topVdev, hleaves,
      numbered, List.map_map]
    refine List.ext_getElem (by simp) (fun i hi hi' => ?_)
    rw [List.length_map, List.length_range] at hi
    rw [List.getElem_map, List.getElem_map, List.getElem_range, List.getElem_zipIdx, Nat.zero_add]
    rw [Function.comp_apply, Member.mk.injEq]
    exact ⟨rfl, rfl, h.leafOwner ht hdisk hi⟩
  have hguid : (layout.topVdev top hint).guid = topGuid top := by
    rw [topVdev, hnode]
    rfl
  rw [listed, listed, hguid, ← hmembers]
  rw [Topology.topVdev, displayName_labelVdev top hint hkind]
  rfl

variable (asize) in
/-- The reader of a vdev that is not a dRAID is the same. -/
theorem fromTree_labelVdev {top : Nat} {hint : TopHint} (hflat : hint.children = [])
    (hsome : hint.members ≠ []) (hkind : hint.kind = "mirror" ∨ hint.kind = "raidz")
    (members : List Member) (bits : Nat) :
    Node.fromTree members bits (layout.labelVdev top hint asize) =
      Node.fromTree members bits (layout.topVdev top hint).tree := by
  have hdisk : hint.kind ≠ "disk" := by
    rcases hkind with h | h <;> rw [h] <;> decide
  obtain ⟨-, hnode, -⟩ := TopHint.node_of_nil layout.ashift top hflat 0 { leaf := 0, members := [] }
  have htree : (layout.topVdev top hint).tree = hint.vdevNode layout.ashift top 0
      ((List.range hint.members.length).map (fun i =>
        diskNode layout.ashift i (syntheticGuid top i))) := by
    rw [topVdev, hnode]
    dsimp only
    rw [diskNodes_eq]
    simp only [Nat.zero_add]
  have hchildren : (layout.labelVdev top hint asize).children =
      (List.range hint.members.length).map (labelLeaf top) := if_neg hdisk
  have hsame : (layout.labelVdev top hint asize).children.map (Node.fromTree members bits) =
      ((List.range hint.members.length).map (fun i =>
        diskNode layout.ashift i (syntheticGuid top i))).map (Node.fromTree members bits) := by
    rw [hchildren, List.map_map, List.map_map]
    refine List.map_congr_left (fun i _ => ?_)
    rw [Function.comp_apply, Function.comp_apply,
      fromTree_leaf (show "disk" ≠ "dspare" by decide) rfl,
      fromTree_leaf (show "disk" ≠ "dspare" by decide) rfl]
    rfl
  have hcount : (List.range hint.members.length) ≠ [] := by simpa using hsome
  have hlabel : (layout.labelVdev top hint asize).children ≠ [] := by
    rw [hchildren]
    simpa using hsome
  have hlayout : (hint.vdevNode layout.ashift top 0 ((List.range hint.members.length).map (fun i =>
      diskNode layout.ashift i (syntheticGuid top i)))).children ≠ [] := by
    simpa [TopHint.vdevNode] using hsome
  rw [htree]
  rcases hkind with h | h
  · rw [fromTree_mirror (Or.inl h) hlabel, fromTree_mirror (Or.inl h) hlayout, hsame]
    rfl
  · rw [fromTree_raidz h hlabel, fromTree_raidz h hlayout, hsame]
    rfl

/-- The label of a dRAID has no geometry, and there is none without data columns. -/
theorem labelVdev_draid {top : Nat} {hint : TopHint} (hkind : hint.kind = "draid")
    (hsome : hint.members ≠ []) (members : List Member) (bits : Nat) : ∃ why,
      Node.fromTree members bits (layout.labelVdev top hint asize) = .unsupported why := by
  have hdisk : hint.kind ≠ "disk" := by
    rw [hkind]
    decide
  have hchildren : (layout.labelVdev top hint asize).children.isEmpty = false := by
    rw [List.isEmpty_eq_false_iff, show (layout.labelVdev top hint asize).children = _ from
      if_neg hdisk]
    simpa using hsome
  have hgeometry : ∀ nparity nspares children ngroups, ∃ e,
      Draid.Config.new 0 nparity nspares children ngroups = .error e := by
    intro nparity nspares children ngroups
    rw [Draid.Config.new]
    split
    · exact ⟨_, rfl⟩
    · rw [if_pos (Or.inr (Or.inr rfl))]
      exact ⟨_, rfl⟩
  obtain ⟨e, he⟩ := hgeometry (hint.nparity.getD 0) 0
    (layout.labelVdev top hint asize).children.length 0
  have hlabel : (layout.labelVdev top hint asize).kind = "draid" := hkind
  have hbare : (layout.labelVdev top hint asize).draidNdata.getD 0 = 0 ∧
      (layout.labelVdev top hint asize).nparity.getD 0 = hint.nparity.getD 0 ∧
      (layout.labelVdev top hint asize).draidNspares.getD 0 = 0 ∧
      (layout.labelVdev top hint asize).draidNgroups.getD 0 = 0 := ⟨rfl, rfl, rfl, rfl⟩
  rw [Node.fromTree_eq, Node.ofTree, hlabel, hchildren, hbare.1, hbare.2.1, hbare.2.2.1,
    hbare.2.2.2, he]
  exact ⟨_, rfl⟩

theorem Emitted.vdevChildren (h : Emitted layout txg asize scans) (hsome : layout.tops ≠ []) :
    (assemblePool (layout.guid.getD 0) (configs scans)).vdevChildren =
      layout.assemble.vdevChildren := by
  obtain ⟨hint, rest, hlayout⟩ := List.exists_cons_of_ne_nil hsome
  have ht : layout.tops[0]? = some hint := by rw [hlayout, List.getElem?_cons_zero]
  obtain ⟨e, he, -⟩ := h.describes.mpr ⟨0, hint, ht, rfl⟩
  rcases lastMax_cases txgOf (configs scans) with ⟨hnil, -⟩ | ⟨b, hb, hmax⟩
  · rw [hnil] at he
    cases he
  · obtain ⟨_, _, _, -, hconfig⟩ := h.mem_configs.mp hmax.1
    rw [assemblePool]
    dsimp only
    rw [hb, Option.map_some, Option.bind_some, hconfig]
    rfl

end Labels

/-! ## One top-level vdev -/

def oneTopScans (kind : String) (count : Nat) : List (Option DeviceScan) :=
  (List.range count).map (fun leaf => some (Topology.deviceOf
    (((oneTop kind count).labelNvlist 0 leaf 4 none).getD (uniqueList [])) []))

theorem oneTop_emitted (kind : String) {count : Nat} (hpos : 0 < count) (hlt : count < 2 ^ 32) :
    (oneTop kind count).Emitted 4 none (oneTopScans kind count) := by
  obtain ⟨hint, htops⟩ : ∃ hint, (oneTop kind count).tops = [hint] := ⟨_, rfl⟩
  have hhint : hint.members = (List.range count).map some ∧ hint.children = [] := by
    obtain rfl := List.singleton_inj.mp htops
    exact ⟨rfl, rfl⟩
  have hlength : hint.members.length = count := by rw [hhint.1, List.length_map, List.length_range]
  have hconfig : ∀ leaf, leaf < count → LabelConfig.fromNvlist
      (((oneTop kind count).labelNvlist 0 leaf 4 none).getD (uniqueList [])) =
        (oneTop kind count).labelConfig 0 hint leaf 4 none := by
    intro leaf hleaf
    have ht : (oneTop kind count).tops[0]? = some hint := by
      rw [htops]
      rfl
    obtain ⟨m, -, hlabel, hread⟩ := labelNvlist_spec 4 none ht hhint.2 (hlength.symm ▸ hleaf)
    rw [hlabel]
    exact hread
  have hnames : ∀ top hint' leaf device, (oneTop kind count).Names top hint' leaf device ↔
      top = 0 ∧ hint' = hint ∧ leaf = device ∧ device < count := by
    intro top hint' leaf device
    rw [Names, htops, List.getElem?_singleton]
    by_cases htop : top = 0
    · rw [if_pos htop, Option.some.injEq]
      constructor
      · rintro ⟨rfl, hmember⟩
        rw [hhint.1, List.getElem?_map, Option.map_eq_some_iff] at hmember
        obtain ⟨i, hi, hdevice⟩ := hmember
        obtain ⟨hin, rfl⟩ := List.getElem?_eq_some_iff.mp hi
        rw [List.getElem_range] at hdevice
        obtain rfl := Option.some.inj hdevice
        exact ⟨htop, rfl, rfl, by simpa using hin⟩
      · rintro ⟨-, rfl, rfl, hin⟩
        refine ⟨rfl, ?_⟩
        rw [hhint.1, List.getElem?_map, List.getElem?_range hin, Option.map_some]
    · rw [if_neg htop]
      simp [htop]
  constructor
  · rw [htops]
    exact List.forall_mem_singleton.mpr hhint.2
  · rw [htops]
    exact List.forall_mem_singleton.mpr ⟨0, by simpa [hhint.1] using hpos⟩
  · rw [htops, List.length_singleton]
    decide
  · rw [htops]
    exact List.forall_mem_singleton.mpr (hlength.symm ▸ hlt)
  · decide
  · intro device config
    rw [oneTopScans, List.getElem?_map]
    constructor
    · intro hread
      by_cases hin : device < count
      · rw [List.getElem?_range hin] at hread
        refine ⟨0, hint, device, (hnames _ _ _ _).mpr ⟨rfl, rfl, rfl, hin⟩, ?_⟩
        exact (Option.some.inj hread).symm.trans (hconfig device hin)
      · rw [List.getElem?_eq_none (by simpa using hin)] at hread
        cases hread
    · rintro ⟨top, hint', leaf, hnamed, rfl⟩
      obtain ⟨rfl, rfl, rfl, hin⟩ := (hnames _ _ _ _).mp hnamed
      rw [List.getElem?_range hin]
      exact congrArg some (hconfig leaf hin)

end LayoutHints

end Zio
end ZvolRescue
