import Mathlib.Data.Fintype.Fin
import Mathlib.Logic.Equiv.Basic
import ZvolRescue.Topology.Committed

/-!
# Pools and the order of the scan

The topology of a pool is a function of the labels, in whatever order the devices were scanned,
up to the device that a leaf is bound to: of several devices with a current label of one leaf the
first is taken (`wellAssembled_iff`).
-/

namespace ZvolRescue
namespace Topology

open Lib Ondisk Scan

/-! ## Other orders -/

/-- The same devices in another order: the one at `i` is the one that was at `σ i`. -/
def reorder (scans : List (Option DeviceScan)) (σ : Equiv.Perm (Fin scans.length)) :
    List (Option DeviceScan) :=
  List.ofFn (fun i => scans.get (σ i))

/-- Where the device at this place of the new order was. -/
def renumber {n : Nat} (σ : Equiv.Perm (Fin n)) (device : Nat) : Nat :=
  if h : device < n then σ ⟨device, h⟩ else device

def TopVdev.renumber (ren : Nat → Nat) (top : TopVdev) : TopVdev :=
  { top with members := top.members.map (fun m => { m with present := m.present.map ren }) }

/-- The pool with its devices renumbered, less the lists that are in the order of the scan. -/
def PoolAssembly.shape (ren : Nat → Nat) (pool : PoolAssembly) : PoolAssembly :=
  { pool with tops := pool.tops.map (TopVdev.renumber ren), hosts := [], devices := [], stale := [] }

/-- The device has a label of this leaf of the pool, and is not stale. -/
def Claims (scans : List (Option DeviceScan)) (pool : PoolAssembly) (leaf : Nat) (e : Entry) :
    Prop :=
  e ∈ configs scans ∧ poolGuidOf e = pool.guid ∧ isStale pool.stale e.1 = false ∧
    e.2.guid = some leaf

/-- Pools are well formed and the same for every order of the scan. -/
structure WellAssembled (scans : List (Option DeviceScan)) : Prop where
  order : ∀ σ, (assemble (reorder scans σ)).map (PoolAssembly.shape (renumber σ)) =
    (assemble scans).map (PoolAssembly.shape id)
  newest : ∀ pool ∈ assemble scans, ∀ top ∈ pool.tops, ∀ m ∈ top.members, ∀ e,
    Claims scans pool m.guid e → ∃ owner, Claims scans pool m.guid owner ∧
      m.present = some owner.1 ∧ txgOf e ≤ txgOf owner
  ids : ∀ pool ∈ assemble scans, (pool.tops.map TopVdev.id).Nodup
  one : ∀ pool ∈ assemble scans, ∀ top ∈ pool.tops, ∀ top' ∈ pool.tops, ∀ m ∈ top.members,
    ∀ m' ∈ top'.members, m.guid = m'.guid → m.present = m'.present

/-- The labels of a pool. -/
def poolLabels (scans : List (Option DeviceScan)) (guid : Nat) : List Entry :=
  (configs scans).filter (fun e => poolGuidOf e = guid)

/-- One of the labels is of this leaf, and current. -/
def Owns (entries : List Entry) (leaf : Nat) (e : Entry) : Prop :=
  e ∈ entries ∧ Current entries e ∧ e.2.guid = some leaf

/-- No leaf of a committed top-level vdev has current labels on two devices. -/
def NoRivals (scans : List (Option DeviceScan)) : Prop :=
  ∀ guid t, Committed (poolLabels scans guid) t → ∀ leaf ∈ t.2.leaves, ∀ e e',
    Owns (poolLabels scans guid) leaf.guid e → Owns (poolLabels scans guid) leaf.guid e' →
      e.1 = e'.1

/-! ## The labels of one pool -/

section Group

variable {entries entries' : List Entry} {ren : Nat → Nat}

/-- The entry with its device renumbered. -/
def rename (ren : Nat → Nat) (e : Entry) : Entry := (ren e.1, e.2)

/-- The second list has the labels of the first in another order, under other numbers. -/
structure Reordered (ren : Nat → Nat) (entries entries' : List Entry) : Prop where
  one : OnePool entries
  sorted : entries.Pairwise (fun a b => a.1 < b.1)
  sorted' : entries'.Pairwise (fun a b => a.1 < b.1)
  perm : (entries'.map (rename ren)).Perm entries

theorem Reordered.mem (h : Reordered ren entries entries') {e : Entry} :
    e ∈ entries ↔ ∃ e' ∈ entries', rename ren e' = e := by
  rw [← h.perm.mem_iff, List.mem_map]

theorem Reordered.describes (h : Reordered ren entries entries') {t : Nat × VdevNode} :
    Describes entries' t ↔ Describes entries t := by
  constructor
  · rintro ⟨e, he, hdescribes⟩
    exact ⟨rename ren e, h.mem.mpr ⟨e, he, rfl⟩, hdescribes⟩
  · rintro ⟨e, he, hdescribes⟩
    obtain ⟨e', he', rfl⟩ := h.mem.mp he
    exact ⟨e', he', hdescribes⟩

theorem Reordered.newest (h : Reordered ren entries entries') {t : Nat × VdevNode} :
    Newest entries' t ↔ Newest entries t := by
  simp only [Newest, h.describes]

theorem Reordered.committed (h : Reordered ren entries entries') {t : Nat × VdevNode} :
    Committed entries' t ↔ Committed entries t := by
  simp only [Committed, h.newest]

theorem Reordered.current (h : Reordered ren entries entries') {e : Entry} :
    Current entries' e ↔ Current entries (rename ren e) := by
  simp only [Current, h.newest, h.committed]
  rfl

theorem Reordered.owns (h : Reordered ren entries entries') {leaf : Nat} {e : Entry} :
    Owns entries leaf e ↔ ∃ e', Owns entries' leaf e' ∧ rename ren e' = e := by
  constructor
  · rintro ⟨he, hcurrent, hguid⟩
    obtain ⟨e', he', rfl⟩ := h.mem.mp he
    exact ⟨e', ⟨he', h.current.mpr hcurrent, hguid⟩, rfl⟩
  · rintro ⟨e', ⟨he', hcurrent, hguid⟩, rfl⟩
    exact ⟨h.mem.mpr ⟨e', he', rfl⟩, h.current.mp hcurrent, hguid⟩

theorem Reordered.onePool (h : Reordered ren entries entries') : OnePool entries' := by
  have hmem : ∀ e ∈ entries', rename ren e ∈ entries := fun e he => h.mem.mpr ⟨e, he, rfl⟩
  exact ⟨fun e he e' he' => h.one.pool (rename ren e) (hmem e he) (rename ren e') (hmem e' he'),
    fun e he e' he' => h.one.agree (rename ren e) (hmem e he) (rename ren e') (hmem e' he')⟩

/-! ### Whose a leaf is -/

theorem nodup_of_sorted (h : entries.Pairwise (fun a b => a.1 < b.1)) :
    (entries.map Prod.fst).Nodup :=
  List.pairwise_map.mpr (h.imp (fun hlt => ne_of_lt hlt))

theorem isStale_of_mem (hone : OnePool entries) (hsorted : entries.Pairwise (fun a b => a.1 < b.1))
    {e : Entry} (he : e ∈ entries) :
    isStale (staleMembers entries) e.1 = false ↔ Current entries e := by
  rw [← Bool.not_eq_true, isStale_staleMembers hone]
  constructor
  · intro hlive
    by_contra hout
    exact hlive ⟨e, he, rfl, hout⟩
  · rintro hcurrent ⟨e', he', hdevice, hout⟩
    rw [List.inj_on_of_nodup_map (nodup_of_sorted hsorted) he' he hdevice] at hout
    exact hout hcurrent

/-- The owner of a leaf is the first device that has a current label of it. -/
theorem leafOwner_eq_some (hone : OnePool entries)
    (hsorted : entries.Pairwise (fun a b => a.1 < b.1)) {leaf device : Nat} :
    leafOwner entries (staleMembers entries) leaf = some device ↔
      (∃ e, Owns entries leaf e ∧ e.1 = device) ∧ ∀ e, Owns entries leaf e → device ≤ e.1 := by
  have howns : ∀ e, Owns entries leaf e ↔
      e ∈ entries.filter (fun e => !isStale (staleMembers entries) e.1) ∧
        decide (e.2.guid = some leaf) = true := by
    intro e
    rw [Owns, List.mem_filter, decide_eq_true_eq, Bool.not_eq_true', ← and_assoc]
    exact and_congr_left' (and_congr_right fun he => (isStale_of_mem hone hsorted he).symm)
  rw [leafOwner, find?_of_pairwise_lt (hsorted.filter _)]
  simp only [howns, and_assoc, and_imp]

/-- Where one device at most has current labels of a leaf, that device is the owner. -/
theorem leafOwner_of_unique (hone : OnePool entries)
    (hsorted : entries.Pairwise (fun a b => a.1 < b.1)) {leaf : Nat}
    (hunique : ∀ e e', Owns entries leaf e → Owns entries leaf e' → e.1 = e'.1) {device : Nat} :
    leafOwner entries (staleMembers entries) leaf = some device ↔
      ∃ e, Owns entries leaf e ∧ e.1 = device := by
  rw [leafOwner_eq_some hone hsorted, and_iff_left_iff_imp]
  rintro ⟨e, he, rfl⟩ e' he'
  exact (hunique e e' he he').le

/-- A leaf without rivals has the same owner in every order. -/
theorem Reordered.leafOwner (h : Reordered ren entries entries')
    (hren : Function.Injective ren) {leaf : Nat}
    (hunique : ∀ e e', Owns entries leaf e → Owns entries leaf e' → e.1 = e'.1) :
    (leafOwner entries' (staleMembers entries') leaf).map ren =
      Topology.leafOwner entries (staleMembers entries) leaf := by
  have hunique' : ∀ e e', Owns entries' leaf e → Owns entries' leaf e' → e.1 = e'.1 :=
    fun e e' he he' => hren (hunique _ _ (h.owns.mpr ⟨e, he, rfl⟩) (h.owns.mpr ⟨e', he', rfl⟩))
  ext device
  rw [Option.map_eq_some_iff, leafOwner_of_unique h.one h.sorted hunique]
  simp only [leafOwner_of_unique h.onePool h.sorted' hunique', h.owns]
  constructor
  · rintro ⟨_, ⟨e, he, rfl⟩, rfl⟩
    exact ⟨_, ⟨e, he, rfl⟩, rfl⟩
  · rintro ⟨_, ⟨e, he, rfl⟩, rfl⟩
    exact ⟨_, ⟨e, he, rfl⟩, rfl⟩

/-! ### The pool -/

theorem Reordered.topsByGuid (h : Reordered ren entries entries') :
    topsByGuid entries' = Topology.topsByGuid entries := by
  have hnodup : ∀ l, (Topology.topsByGuid l).Nodup :=
    fun l => (topsByGuid_sorted l).imp (fun hlt heq => by rw [heq] at hlt; exact lt_irrefl _ hlt)
  have hperm : (Topology.topsByGuid entries').Perm (Topology.topsByGuid entries) :=
    (List.perm_ext_iff_of_nodup (hnodup _) (hnodup _)).mpr (fun t => by
      rw [mem_topsByGuid h.onePool, mem_topsByGuid h.one, h.newest])
  exact hperm.eq_of_pairwise (fun t u _ _ hlt hlt' => absurd hlt hlt'.asymm)
    (topsByGuid_sorted _) (topsByGuid_sorted _)

/-- What the newest label says of the pool. -/
theorem Reordered.poolFacts (h : Reordered ren entries entries') :
    ((lastMax txgOf entries').map Prod.snd).map poolFacts =
      ((lastMax txgOf entries).map Prod.snd).map Topology.poolFacts := by
  have hsame : ∀ e ∈ entries'.map (rename ren), ∀ e' ∈ entries'.map (rename ren),
      txgOf e = txgOf e' → Topology.poolFacts e.2 = Topology.poolFacts e'.2 := by
    intro e he e' he' htxg
    have hmem := h.perm.mem_iff.mp he
    have hmem' := h.perm.mem_iff.mp he'
    exact (h.one.agree e hmem e' hmem' (h.one.pool e hmem e' hmem') htxg).1
  have hperm := lastMax_perm (fun e : Entry => Topology.poolFacts e.2) h.perm hsame
  rw [lastMax_map, Option.map_map] at hperm
  rw [Option.map_map, Option.map_map]
  exact hperm

theorem poolFacts_congr {c c' : Option LabelConfig}
    (h : c.map Topology.poolFacts = c'.map Topology.poolFacts) :
    c.bind LabelConfig.name = c'.bind LabelConfig.name ∧
      c.bind LabelConfig.state = c'.bind LabelConfig.state ∧
      c.bind LabelConfig.vdevChildren = c'.bind LabelConfig.vdevChildren ∧
      c.map LabelConfig.featuresForRead = c'.map LabelConfig.featuresForRead := by
  cases c with
  | none =>
    cases c' with
    | none => exact ⟨rfl, rfl, rfl, rfl⟩
    | some c' => cases h
  | some c =>
    cases c' with
    | none => cases h
    | some c' =>
      have hfacts := Option.some.inj h
      simp only [Topology.poolFacts, Prod.mk.injEq] at hfacts
      simpa using hfacts

theorem Reordered.txg (h : Reordered ren entries entries') :
    (entries'.filterMap (fun e => e.2.txg)).max? = (entries.filterMap (fun e => e.2.txg)).max? := by
  have hmem : ∀ txg, txg ∈ entries'.filterMap (fun e => e.2.txg) ↔
      txg ∈ entries.filterMap (fun e => e.2.txg) := by
    intro txg
    rw [← (h.perm.filterMap _).mem_iff, List.filterMap_map]
    rfl
  ext txg
  rw [List.max?_eq_some_iff, List.max?_eq_some_iff]
  simp only [hmem]

theorem assembleTops_eq (entries : List Entry) : assembleTops entries =
    (sortByKey (fun t => t.2.id) (liveTops (topsByGuid entries))).map
      (fun t => topVdev (leafOwner entries (staleMembers entries)) t.2) :=
  sortByKey_map _ _ _

theorem topVdev_renumber (ren : Nat → Nat) (owner : Nat → Option Nat) (tree : VdevNode) :
    (topVdev owner tree).renumber ren = topVdev (fun leaf => (owner leaf).map ren) tree := by
  simp [topVdev, TopVdev.renumber]

theorem topVdev_congr {owner owner' : Nat → Option Nat} {tree : VdevNode} :
    topVdev owner tree = topVdev owner' tree ↔
      ∀ leaf ∈ tree.leaves, owner leaf.guid = owner' leaf.guid := by
  simp [topVdev]

/-- The top-level vdevs are the same where the owners of their leaves are. -/
theorem Reordered.tops (h : Reordered ren entries entries') :
    (assembleTops entries').map (TopVdev.renumber ren) =
      (assembleTops entries).map (TopVdev.renumber id) ↔
    ∀ t, Committed entries t → ∀ leaf ∈ t.2.leaves,
      (Topology.leafOwner entries' (staleMembers entries') leaf.guid).map ren =
        Topology.leafOwner entries (staleMembers entries) leaf.guid := by
  rw [assembleTops_eq, assembleTops_eq, h.topsByGuid, List.map_map, List.map_map,
    List.map_inj_left]
  simp only [mem_sortByKey, mem_liveTops h.one, Function.comp_apply, topVdev_renumber,
    topVdev_congr, Option.map_id, id]

/-- So is the whole pool. -/
theorem Reordered.pool (h : Reordered ren entries entries') (guid : Nat) :
    (assemblePool guid entries').shape ren = (assemblePool guid entries).shape id ↔
    ∀ t, Committed entries t → ∀ leaf ∈ t.2.leaves,
      (Topology.leafOwner entries' (staleMembers entries') leaf.guid).map ren =
        Topology.leafOwner entries (staleMembers entries) leaf.guid := by
  rw [← h.tops]
  constructor
  · exact congrArg PoolAssembly.tops
  · intro htops
    obtain ⟨hname, hstate, hchildren, hfeatures⟩ := poolFacts_congr h.poolFacts
    simp only [PoolAssembly.shape, assemblePool, htops, h.txg, hname, hstate, hchildren, hfeatures]

end Group

/-! ## The labels of another order -/

section Scans

variable {scans : List (Option DeviceScan)} {σ : Equiv.Perm (Fin scans.length)}

theorem mem_configs {e : Entry} : e ∈ configs scans ↔
    (scans[e.1]?.bind (fun s => s.bind DeviceScan.config)) = some e.2 ∧
      e.2.poolGuid.isSome = true := by
  simp only [configs, List.mem_filter, List.mem_filterMap, Prod.exists,
    List.mk_mem_zipIdx_iff_getElem?, Option.map_eq_some_iff, Option.bind_eq_some_iff]
  refine and_congr_left' ⟨?_, ?_⟩
  · rintro ⟨s, i, hget, c, hc, rfl⟩
    exact ⟨s, hget, hc⟩
  · rintro ⟨s, hget, hc⟩
    exact ⟨s, e.1, hget, e.2, hc, rfl⟩

theorem configs_sorted (scans : List (Option DeviceScan)) :
    (configs scans).Pairwise (fun a b => a.1 < b.1) := by
  have hindex : scans.zipIdx.Pairwise (fun a b => a.2 < b.2) := by
    rw [← List.pairwise_map, List.zipIdx_map_snd]
    exact List.pairwise_lt_range'
  refine (List.Pairwise.filterMap _ ?_ hindex).filter _
  intro s s' hlt e he e' he'
  obtain ⟨c, -, rfl⟩ := Option.map_eq_some_iff.mp he
  obtain ⟨c', -, rfl⟩ := Option.map_eq_some_iff.mp he'
  exact hlt

theorem renumber_injective {n : Nat} (σ : Equiv.Perm (Fin n)) :
    Function.Injective (renumber σ) := by
  intro i j h
  rw [renumber, renumber] at h
  split at h <;> split at h
  · exact Fin.mk.inj (σ.injective (Fin.val_injective h))
  · have := (σ ⟨i, by assumption⟩).isLt
    omega
  · have := (σ ⟨j, by assumption⟩).isLt
    omega
  · exact h

theorem length_reorder : (reorder scans σ).length = scans.length := List.length_ofFn

theorem getElem?_reorder (device : Nat) :
    (reorder scans σ)[device]? = scans[renumber σ device]? := by
  rw [reorder, List.getElem?_ofFn, renumber]
  by_cases hlt : device < scans.length
  · rw [dif_pos hlt, dif_pos hlt]
    exact (List.getElem?_eq_getElem _).symm
  · rw [dif_neg hlt, dif_neg hlt, List.getElem?_eq_none (not_lt.mp hlt)]

theorem mem_configs_reorder {e : Entry} :
    e ∈ configs (reorder scans σ) ↔ rename (renumber σ) e ∈ configs scans := by
  rw [mem_configs, mem_configs, getElem?_reorder]
  rfl

theorem renumber_surjective {n : Nat} (σ : Equiv.Perm (Fin n)) (device : Nat) :
    ∃ place, renumber σ place = device := by
  by_cases hlt : device < n
  · refine ⟨σ.symm ⟨device, hlt⟩, ?_⟩
    rw [renumber, dif_pos (σ.symm ⟨device, hlt⟩).isLt]
    simp
  · exact ⟨device, dif_neg hlt⟩

/-- The labels of the new order are those of the old one under other numbers. -/
theorem configs_reorder (σ : Equiv.Perm (Fin scans.length)) :
    ((configs (reorder scans σ)).map (rename (renumber σ))).Perm (configs scans) := by
  have hnodup : ∀ {l : List Entry}, l.Pairwise (fun a b => a.1 < b.1) → l.Nodup :=
    fun h => List.Nodup.of_map _ (nodup_of_sorted h)
  refine (List.perm_ext_iff_of_nodup ?_ (hnodup (configs_sorted scans))).mpr (fun e => ?_)
  · refine (hnodup (configs_sorted _)).map (fun e e' h => ?_)
    obtain ⟨hdevice, hconfig⟩ := Prod.mk.inj h
    exact Prod.ext (renumber_injective σ hdevice) hconfig
  · rw [List.mem_map]
    constructor
    · rintro ⟨e', he', rfl⟩
      exact mem_configs_reorder.mp he'
    · intro he
      obtain ⟨place, hplace⟩ := renumber_surjective σ e.1
      have hrename : rename (renumber σ) (place, e.2) = e := Prod.ext hplace rfl
      exact ⟨(place, e.2), mem_configs_reorder.mpr (by rwa [hrename]), hrename⟩

theorem reordered (h : LabelsAgree (configs scans)) (σ : Equiv.Perm (Fin scans.length))
    (guid : Nat) :
    Reordered (renumber σ) (poolLabels scans guid) (poolLabels (reorder scans σ) guid) where
  one := by
    constructor
    · intro e he e' he'
      rw [of_decide_eq_true (List.mem_filter.mp he).2, of_decide_eq_true (List.mem_filter.mp he').2]
    · exact fun e he e' he' => h e (List.mem_filter.mp he).1 e' (List.mem_filter.mp he').1
  sorted := (configs_sorted scans).filter _
  sorted' := (configs_sorted _).filter _
  perm := by
    have hfilter := (configs_reorder σ).filter (fun e => poolGuidOf e = guid)
    rw [List.filter_map] at hfilter
    exact hfilter

theorem sortedKeys_reorder (σ : Equiv.Perm (Fin scans.length)) :
    sortedKeys poolGuidOf (configs (reorder scans σ)) = sortedKeys poolGuidOf (configs scans) := by
  rw [← sortedKeys_perm (configs_reorder σ), sortedKeys, sortedKeys, List.map_map]
  rfl

theorem assemble_eq (scans : List (Option DeviceScan)) : assemble scans =
    (sortedKeys poolGuidOf (configs scans)).map (fun guid =>
      assemblePool guid (poolLabels scans guid)) := rfl

theorem Owns.mem_configs {guid leaf : Nat} {e : Entry} (h : Owns (poolLabels scans guid) leaf e) :
    e ∈ configs scans ∧ poolGuidOf e = guid :=
  (List.mem_filter.mp h.1).imp id of_decide_eq_true

theorem lt_of_mem_configs {e : Entry} (he : e ∈ configs scans) : e.1 < scans.length := by
  by_contra hle
  have hget := (mem_configs.mp he).1
  rw [List.getElem?_eq_none (not_lt.mp hle)] at hget
  cases hget

/-- The owners of the leaves are the same devices in the new order. -/
def SameOwners (scans : List (Option DeviceScan)) (σ : Equiv.Perm (Fin scans.length)) : Prop :=
  ∀ guid t, Committed (poolLabels scans guid) t → ∀ leaf ∈ t.2.leaves,
    (leafOwner (poolLabels (reorder scans σ) guid)
      (staleMembers (poolLabels (reorder scans σ) guid)) leaf.guid).map (renumber σ) =
        leafOwner (poolLabels scans guid) (staleMembers (poolLabels scans guid)) leaf.guid

theorem assemble_reorder (h : LabelsAgree (configs scans)) (σ : Equiv.Perm (Fin scans.length)) :
    (assemble (reorder scans σ)).map (PoolAssembly.shape (renumber σ)) =
      (assemble scans).map (PoolAssembly.shape id) ↔ SameOwners scans σ := by
  rw [assemble_eq, assemble_eq, sortedKeys_reorder, List.map_map, List.map_map, List.map_inj_left]
  constructor
  · intro hpools guid t ht
    obtain ⟨e, he, -⟩ := ht.1.1
    obtain ⟨hmem, hguid⟩ := List.mem_filter.mp he
    have hkey : guid ∈ sortedKeys poolGuidOf (configs scans) :=
      mem_sortedKeys.mpr ⟨e, hmem, of_decide_eq_true hguid⟩
    exact ((reordered h σ guid).pool guid).mp (hpools guid hkey) t ht
  · intro howners guid _
    exact ((reordered h σ guid).pool guid).mpr (howners guid)

theorem sameOwners_of_noRivals (h : LabelsAgree (configs scans)) (hrivals : NoRivals scans)
    (σ : Equiv.Perm (Fin scans.length)) : SameOwners scans σ :=
  fun guid t ht leaf hleaf =>
    (reordered h σ guid).leafOwner (renumber_injective σ) (hrivals guid t ht leaf hleaf)

/-! ### Rivals -/

theorem exists_leafOwner {entries : List Entry} (hone : OnePool entries)
    (hsorted : entries.Pairwise (fun a b => a.1 < b.1)) {leaf : Nat} {e : Entry}
    (he : Owns entries leaf e) :
    ∃ owner, Owns entries leaf owner ∧ (∀ e', Owns entries leaf e' → owner.1 ≤ e'.1) ∧
      leafOwner entries (staleMembers entries) leaf = some owner.1 := by
  classical
  have hex : ∃ device, ∃ e, Owns entries leaf e ∧ e.1 = device := ⟨_, e, he, rfl⟩
  obtain ⟨owner, howner, hdevice⟩ := Nat.find_spec hex
  have hleast : ∀ e', Owns entries leaf e' → owner.1 ≤ e'.1 := by
    intro e' he'
    rw [hdevice]
    exact Nat.find_min' hex ⟨e', he', rfl⟩
  exact ⟨owner, howner, hleast, (leafOwner_eq_some hone hsorted).mpr ⟨⟨owner, howner, rfl⟩, hleast⟩⟩

theorem renumber_swap {n : Nat} (i j : Fin n) : renumber (Equiv.swap i j) i = j := by
  rw [renumber, dif_pos i.isLt]
  exact congrArg Fin.val (Equiv.swap_apply_left i j)

/-- Where a later device has a current label of a leaf too, it is the owner once the two devices
have changed places. -/
theorem owner_of_sameOwners (h : LabelsAgree (configs scans)) {guid : Nat} {t : Nat × VdevNode}
    (ht : Committed (poolLabels scans guid) t) {leaf : VdevNode} (hleaf : leaf ∈ t.2.leaves)
    (hsame : ∀ σ, SameOwners scans σ) {owner e : Entry}
    (howner : Owns (poolLabels scans guid) leaf.guid owner)
    (hleast : ∀ e', Owns (poolLabels scans guid) leaf.guid e' → owner.1 ≤ e'.1)
    (hdevice : leafOwner (poolLabels scans guid) (staleMembers (poolLabels scans guid)) leaf.guid =
      some owner.1)
    (he : Owns (poolLabels scans guid) leaf.guid e) : e.1 = owner.1 := by
  let i : Fin scans.length := ⟨owner.1, lt_of_mem_configs howner.mem_configs.1⟩
  let j : Fin scans.length := ⟨e.1, lt_of_mem_configs he.mem_configs.1⟩
  have hswap : renumber (Equiv.swap i j) owner.1 = e.1 := renumber_swap i j
  have hback : renumber (Equiv.swap i j) e.1 = owner.1 := by
    rw [Equiv.swap_comm]
    exact renumber_swap j i
  have hreordered := reordered h (Equiv.swap i j) guid
  have hnew := hsame (Equiv.swap i j) guid t ht leaf hleaf
  rw [hdevice] at hnew
  obtain ⟨place, hplace, hren⟩ := Option.map_eq_some_iff.mp hnew
  obtain rfl : place = e.1 := renumber_injective _ (hren.trans hback.symm)
  obtain ⟨e', he', hrename⟩ := hreordered.owns.mp he
  have hfirst : e'.1 = owner.1 :=
    renumber_injective _ ((congrArg Prod.fst hrename).trans hswap.symm)
  have hle := ((leafOwner_eq_some hreordered.onePool hreordered.sorted').mp hplace).2 e' he'
  rw [hfirst] at hle
  exact le_antisymm hle (hleast e he)

theorem noRivals_of_sameOwners (h : LabelsAgree (configs scans))
    (hsame : ∀ σ, SameOwners scans σ) : NoRivals scans := by
  intro guid t ht leaf hleaf e e' he he'
  have hreordered := reordered h (Equiv.refl _) guid
  obtain ⟨owner, howner, hleast, hdevice⟩ :=
    exists_leafOwner hreordered.one hreordered.sorted he
  rw [owner_of_sameOwners h ht hleaf hsame howner hleast hdevice he,
    owner_of_sameOwners h ht hleaf hsame howner hleast hdevice he']

/-! ### Well-formed pools -/

theorem claims_iff (h : LabelsAgree (configs scans)) {guid leaf : Nat} {e : Entry} :
    Claims scans (assemblePool guid (poolLabels scans guid)) leaf e ↔
      Owns (poolLabels scans guid) leaf e := by
  have hreordered := reordered h (Equiv.refl _) guid
  have hmem : e ∈ poolLabels scans guid ↔ e ∈ configs scans ∧ poolGuidOf e = guid := by
    rw [poolLabels, List.mem_filter, decide_eq_true_eq]
  rw [Claims, Owns, hmem, and_assoc]
  refine and_congr_right (fun he => and_congr_right (fun hguid => and_congr_left' ?_))
  exact isStale_of_mem hreordered.one hreordered.sorted (hmem.mpr ⟨he, hguid⟩)

theorem mem_tops (h : LabelsAgree (configs scans)) {guid : Nat} {top : TopVdev} :
    top ∈ assembleTops (poolLabels scans guid) ↔ ∃ t, Committed (poolLabels scans guid) t ∧
      top = topVdev (leafOwner (poolLabels scans guid) (staleMembers (poolLabels scans guid)))
        t.2 := by
  have hone := (reordered h (Equiv.refl _) guid).one
  simp only [assembleTops_eq, List.mem_map, mem_sortByKey, mem_liveTops hone, eq_comm]

theorem exists_of_mem_assemble {pool : PoolAssembly} (h : pool ∈ assemble scans) :
    ∃ guid, pool = assemblePool guid (poolLabels scans guid) := by
  rw [assemble_eq] at h
  obtain ⟨guid, -, rfl⟩ := List.mem_map.mp h
  exact ⟨guid, rfl⟩

theorem nodup_tops (h : LabelsAgree (configs scans)) (guid : Nat) :
    ((assembleTops (poolLabels scans guid)).map TopVdev.id).Nodup := by
  have hone := (reordered h (Equiv.refl _) guid).one
  have hids : ((liveTops (topsByGuid (poolLabels scans guid))).map (fun t => t.2.id)).Nodup := by
    refine List.Nodup.map_on (fun t ht u hu hid => ?_) (List.Nodup.filter _ ?_)
    · exact ((mem_liveTops hone).mp ht).unique hone ((mem_liveTops hone).mp hu) hid
    · exact (topsByGuid_sorted _).imp (fun hlt heq => by rw [heq] at hlt; exact lt_irrefl _ hlt)
  rw [assembleTops_eq, List.map_map]
  exact ((sortByKey_perm _ _).map _).nodup_iff.mpr hids

/-- Pools are well formed and the same for every order of the scan exactly where no leaf has
current labels on two devices. -/
theorem wellAssembled_iff (h : LabelsAgree (configs scans)) :
    WellAssembled scans ↔ NoRivals scans := by
  constructor
  · intro hwell
    exact noRivals_of_sameOwners h (fun σ => (assemble_reorder h σ).mp (hwell.order σ))
  · intro hrivals
    refine ⟨fun σ => (assemble_reorder h σ).mpr (sameOwners_of_noRivals h hrivals σ), ?_, ?_, ?_⟩
    · intro pool hpool top htop m hm e he
      obtain ⟨guid, rfl⟩ := exists_of_mem_assemble hpool
      obtain ⟨t, ht, rfl⟩ := (mem_tops h).mp htop
      obtain ⟨leaf, hleaf, rfl⟩ := List.mem_map.mp hm
      have hreordered := reordered h (Equiv.refl _) guid
      refine ⟨e, he, ?_, le_rfl⟩
      exact (leafOwner_of_unique hreordered.one hreordered.sorted (hrivals guid t ht leaf hleaf)).mpr
        ⟨e, (claims_iff h).mp he, rfl⟩
    · intro pool hpool
      obtain ⟨guid, rfl⟩ := exists_of_mem_assemble hpool
      exact nodup_tops h guid
    · intro pool hpool top htop top' htop' m hm m' hm' hguid
      obtain ⟨guid, rfl⟩ := exists_of_mem_assemble hpool
      obtain ⟨t, -, rfl⟩ := (mem_tops h).mp htop
      obtain ⟨t', -, rfl⟩ := (mem_tops h).mp htop'
      obtain ⟨leaf, -, rfl⟩ := List.mem_map.mp hm
      obtain ⟨leaf', -, rfl⟩ := List.mem_map.mp hm'
      exact congrArg (leafOwner (poolLabels scans guid) (staleMembers (poolLabels scans guid))) hguid

end Scans

/-! ## Two copies of one disk -/

/-- A disk and an older copy of it, the copy first. -/
def copiedScans : List (Option DeviceScan) :=
  [some (deviceOf (labelOf 10 0x2001 [("type", .string "disk")]) []),
    some (deviceOf (labelOf 20 0x2001 [("type", .string "disk")]) [])]

def copyAt (device txg : Nat) : Entry :=
  (device, LabelConfig.fromNvlist (labelOf txg 0x2001 [("type", .string "disk")]))

theorem configs_copiedScans : configs copiedScans = [copyAt 0 10, copyAt 1 20] := rfl

theorem copiedScans_agree : LabelsAgree (configs copiedScans) := by
  have htrees : ∀ device txg device' txg', ∀ tree ∈ (copyAt device txg).2.tree,
      ∀ tree' ∈ (copyAt device' txg').2.tree, tree.guid = tree'.guid → tree = tree' := by
    intro device txg device' txg' tree htree tree' htree' _
    exact Option.some.inj (htree.symm.trans htree')
  have hall : ∀ e ∈ configs copiedScans, ∃ device txg, e = copyAt device txg := by
    rw [configs_copiedScans]
    simp
  intro e he e' he' _ _
  obtain ⟨device, txg, rfl⟩ := hall e he
  obtain ⟨device', txg', rfl⟩ := hall e' he'
  exact ⟨rfl, fun _ => htrees _ _ _ _⟩

def copiedPool : PoolAssembly := assemblePool 0x2000 (configs copiedScans)

theorem copiedPool_mem : copiedPool ∈ assemble copiedScans :=
  mem_assemble.mpr ⟨copyAt 0 10, List.mem_cons_self, rfl⟩

theorem copiedPool_members :
    copiedPool.tops.map TopVdev.members = [[{ guid := 0x2001, path := none, present := some 0 }]] := by
  decide +kernel

theorem copy_claims : Claims copiedScans copiedPool 0x2001 (copyAt 1 20) := by
  have hstale : isStale copiedPool.stale 1 = false := by decide +kernel
  exact ⟨List.mem_cons_of_mem _ List.mem_cons_self, rfl, hstale, rfl⟩

/-- The leaf is bound to the older copy. -/
theorem copied_not_wellAssembled :
    LabelsAgree (configs copiedScans) ∧ ¬ WellAssembled copiedScans := by
  refine ⟨copiedScans_agree, fun h => ?_⟩
  have hmembers := copiedPool_members
  obtain ⟨top, htop, hm⟩ : ∃ top ∈ copiedPool.tops,
      top.members = [{ guid := 0x2001, path := none, present := some 0 }] := by
    rw [← List.mem_map, hmembers]
    exact List.mem_singleton_self _
  obtain ⟨owner, ⟨howner, -⟩, hdevice, hle⟩ := h.newest _ copiedPool_mem top htop _
    (by rw [hm]; exact List.mem_singleton_self _) _ copy_claims
  rw [configs_copiedScans] at howner
  rcases List.mem_pair.mp howner with rfl | rfl
  · have htxg : (20 : Nat) ≤ 10 := hle
    omega
  · cases hdevice

theorem wellAssembled_iff_copied : WellAssembled copiedScans ↔ NoRivals copiedScans :=
  wellAssembled_iff copiedScans_agree

end Topology
end ZvolRescue
