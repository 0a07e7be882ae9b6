import Mathlib.Data.List.Nodup
import ZvolRescue.Topology.Stale

/-!
# The committed configuration

What the labels of a pool describe together: the newest description of every top-level vdev, of
those of one id the newest, and the labels that are part of it.  Assembling takes the top-level
vdevs that are committed (`mem_liveTops`) and sets the other labels aside
(`isStale_staleMembers`).
-/

namespace ZvolRescue
namespace Topology

open Lib Ondisk Scan

section Committed

variable {entries : List Entry} {t t' : Nat × VdevNode}

/-- A label that was committed describes this top-level vdev. -/
def Describes (entries : List Entry) (t : Nat × VdevNode) : Prop :=
  ∃ e ∈ entries, txgOf e ≠ 0 ∧ e.2.tree = some t.2 ∧ t.1 = txgOf e

/-- No label describes it later. -/
def Newest (entries : List Entry) (t : Nat × VdevNode) : Prop :=
  Describes entries t ∧ ∀ u, Describes entries u → u.2.guid = t.2.guid → u.1 ≤ t.1

/-- No top-level vdev of its id is newer, nor as new with a smaller GUID. -/
def Committed (entries : List Entry) (t : Nat × VdevNode) : Prop :=
  Newest entries t ∧ ∀ u, Newest entries u → u.2.id = t.2.id →
    u.1 < t.1 ∨ u.1 = t.1 ∧ t.2.guid ≤ u.2.guid

/-- The label is of a leaf of the committed configuration, as far as it says. -/
def Current (entries : List Entry) (e : Entry) : Prop :=
  txgOf e ≠ 0 ∧ ∀ t, Newest entries t → e.2.topGuid = some t.2.guid →
    Committed entries t ∧ ∀ leaf, e.2.guid = some leaf → named t.2 leaf = true

def poolFacts (c : LabelConfig) : Option String × Option Nat × Option Nat × List String :=
  (c.name, c.state, c.vdevChildren, c.featuresForRead)

/-- Labels of one pool and one transaction group say the same about what they both describe. -/
def LabelsAgree (entries : List Entry) : Prop :=
  ∀ e ∈ entries, ∀ e' ∈ entries, poolGuidOf e = poolGuidOf e' → txgOf e = txgOf e' →
    poolFacts e.2 = poolFacts e'.2 ∧
      (txgOf e ≠ 0 → ∀ tree ∈ e.2.tree, ∀ tree' ∈ e'.2.tree, tree.guid = tree'.guid → tree = tree')

/-- The labels are of one pool, and agree. -/
structure OnePool (entries : List Entry) : Prop where
  pool : ∀ e ∈ entries, ∀ e' ∈ entries, poolGuidOf e = poolGuidOf e'
  agree : LabelsAgree entries

theorem mem_described : t ∈ described entries ↔ Describes entries t := by
  simp only [described, Describes, List.mem_filterMap, List.mem_filter, Option.map_eq_some_iff,
    decide_eq_true_eq]
  constructor
  · rintro ⟨e, ⟨he, htxg⟩, tree, htree, rfl⟩
    exact ⟨e, he, htxg, htree, rfl⟩
  · rintro ⟨e, he, htxg, htree, hfst⟩
    exact ⟨e, ⟨he, htxg⟩, t.2, htree, by rw [← hfst]⟩

/-- Two descriptions of one top-level vdev and one transaction group are the same. -/
theorem Describes.unique (h : OnePool entries) (ht : Describes entries t)
    (ht' : Describes entries t') (htxg : t.1 = t'.1) (hguid : t.2.guid = t'.2.guid) : t = t' := by
  obtain ⟨e, he, hne, htree, hfst⟩ := ht
  obtain ⟨e', he', -, htree', hfst'⟩ := ht'
  have hsame : txgOf e = txgOf e' := by rw [← hfst, ← hfst', htxg]
  exact Prod.ext htxg ((h.agree e he e' he' (h.pool e he e' he') hsame).2 hne _ htree _ htree' hguid)

theorem Newest.unique (h : OnePool entries) (ht : Newest entries t) (ht' : Newest entries t')
    (hguid : t.2.guid = t'.2.guid) : t = t' :=
  ht.1.unique h ht'.1 (le_antisymm (ht'.2 t ht.1 hguid) (ht.2 t' ht'.1 hguid.symm)) hguid

theorem Committed.unique (h : OnePool entries) (ht : Committed entries t)
    (ht' : Committed entries t') (hid : t.2.id = t'.2.id) : t = t' := by
  refine ht.1.unique h ht'.1 ?_
  have hle := ht.2 t' ht'.1 hid.symm
  have hle' := ht'.2 t ht.1 hid
  omega

/-! ### The top-level vdevs that are assembled -/

theorem mem_ofGuid {guid : Nat} : t ∈ (described entries).filter (fun u => u.2.guid = guid) ↔
    Describes entries t ∧ t.2.guid = guid := by
  rw [List.mem_filter, mem_described, decide_eq_true_eq]

theorem mem_topsByGuid (h : OnePool entries) : t ∈ topsByGuid entries ↔ Newest entries t := by
  simp only [topsByGuid, List.mem_filterMap]
  constructor
  · rintro ⟨guid, -, hmax⟩
    obtain ⟨hmem, hle⟩ := firstMax_isMax hmax
    obtain ⟨ht, rfl⟩ := mem_ofGuid.mp hmem
    exact ⟨ht, fun u hu hguid => hle u (mem_ofGuid.mpr ⟨hu, hguid⟩)⟩
  · intro ht
    have hmem := mem_ofGuid.mpr ⟨ht.1, rfl⟩
    refine ⟨t.2.guid, mem_sortedKeys.mpr ⟨t, mem_described.mpr ht.1, rfl⟩, ?_⟩
    rcases firstMax_cases Prod.fst ((described entries).filter (fun u => u.2.guid = t.2.guid)) with
      ⟨hnil, -⟩ | ⟨u, hu, hmax⟩
    · rw [hnil] at hmem
      cases hmem
    · obtain ⟨hdescribes, hguid⟩ := mem_ofGuid.mp hmax.1
      have hnewest : Newest entries u :=
        ⟨hdescribes, fun v hv hv' => hmax.2 v (mem_ofGuid.mpr ⟨hv, hv'.trans hguid⟩)⟩
      rw [hu, hnewest.unique h ht hguid]

theorem topsByGuid_sorted (entries : List Entry) :
    (topsByGuid entries).Pairwise (fun t u => t.2.guid < u.2.guid) := by
  have hguid : ∀ {guid : Nat} {t : Nat × VdevNode},
      firstMax Prod.fst ((described entries).filter (fun u => u.2.guid = guid)) = some t →
        t.2.guid = guid :=
    fun hmax => (mem_ofGuid.mp (firstMax_isMax hmax).1).2
  refine List.Pairwise.filterMap _ (fun guid guid' hlt t ht u hu => ?_) (sortedKeys_sorted _)
  rw [hguid ht, hguid hu]
  exact hlt

theorem ownerOfId_eq (h : OnePool entries) (ht : Newest entries t) :
    ownerOfId (topsByGuid entries) t.2.id = some t.2.guid ↔ Committed entries t := by
  have hmem : ∀ {u : Nat × VdevNode},
      u ∈ (topsByGuid entries).filter (fun u => u.2.id = t.2.id) ↔
        Newest entries u ∧ u.2.id = t.2.id := by
    intro u
    rw [List.mem_filter, mem_topsByGuid h, decide_eq_true_eq]
  rw [ownerOfId]
  rcases firstMax_cases Prod.fst ((topsByGuid entries).filter (fun u => u.2.id = t.2.id)) with
    ⟨hnil, -⟩ | ⟨u, hu, hmax⟩
  · have htin := hmem.mpr ⟨ht, rfl⟩
    rw [hnil] at htin
    cases htin
  obtain ⟨hnewest, hid⟩ := hmem.mp hmax.1
  have hleast := firstMax_least ((topsByGuid_sorted entries).filter _) hu
  have hcommitted : Committed entries u :=
    ⟨hnewest, fun v hv hv' => hleast v (hmem.mpr ⟨hv, hv'.trans hid⟩)⟩
  rw [hu, Option.map_some, Option.some.injEq]
  constructor
  · intro hguid
    rwa [← hnewest.unique h ht hguid]
  · intro ht'
    rw [hcommitted.unique h ht' hid]

theorem mem_liveTops (h : OnePool entries) :
    t ∈ liveTops (topsByGuid entries) ↔ Committed entries t := by
  simp only [liveTops, superseded, List.mem_filter, mem_topsByGuid h]
  constructor
  · rintro ⟨ht, howner⟩
    exact (ownerOfId_eq h ht).mp (by simpa using howner)
  · intro ht
    exact ⟨ht.1, by simpa using (ownerOfId_eq h ht.1).mpr ht⟩

/-! ### The labels that are set aside -/

theorem isStale_append {s s' : List StaleMember} {device : Nat} :
    isStale (s ++ s') device = (isStale s device || isStale s' device) := List.any_append

theorem isStale_uncommitted {device : Nat} : isStale (uncommitted entries) device = true ↔
    ∃ e ∈ entries, e.1 = device ∧ txgOf e = 0 := by
  simp only [isStale, uncommitted, List.any_map, List.any_filter, List.any_eq_true]
  simp [stale, and_comm]

theorem isStale_superseded (h : OnePool entries) {device : Nat} :
    isStale (supersededMembers entries (topsByGuid entries)) device = true ↔
      ∃ e ∈ entries, e.1 = device ∧
        ∃ t, Newest entries t ∧ e.2.topGuid = some t.2.guid ∧ ¬ Committed entries t := by
  have hsuper : ∀ t, Newest entries t →
      (superseded (topsByGuid entries) t = true ↔ ¬ Committed entries t) := by
    intro t ht
    rw [superseded, decide_eq_true_eq, ne_eq, ownerOfId_eq h ht]
  simp only [isStale, supersededMembers, List.any_eq_true, List.mem_flatMap, List.mem_map,
    List.mem_filter, mem_topsByGuid h, decide_eq_true_eq]
  constructor
  · rintro ⟨m, ⟨t, ⟨ht, hout⟩, e, ⟨he, htop⟩, rfl⟩, hdevice⟩
    exact ⟨e, he, hdevice, t, ht, htop, (hsuper t ht).mp hout⟩
  · rintro ⟨e, he, hdevice, t, ht, htop, hout⟩
    exact ⟨_, ⟨t, ⟨ht, (hsuper t ht).mpr hout⟩, e, ⟨he, htop⟩, rfl⟩, hdevice⟩

/-- The label names a leaf that the committed top-level vdev does not have. -/
def Detached (entries : List Entry) (e : Entry) : Prop :=
  ∃ t, Committed entries t ∧ e.2.topGuid = some t.2.guid ∧
    ∃ leaf, e.2.guid = some leaf ∧ named t.2 leaf = false

theorem detached_isSome (h : OnePool entries) {e : Entry} :
    (detached (liveTops (topsByGuid entries)) e).isSome = true ↔ Detached entries e := by
  rw [detached, Detached]
  split
  · rename_i topGuid leaf htop hleaf
    cases hfind : (liveTops (topsByGuid entries)).find? (fun t => t.2.guid = topGuid) with
    | none =>
      simp only [Option.isSome_none, Bool.false_eq_true, false_iff]
      rintro ⟨t, ht, htop', -⟩
      have hne := List.find?_eq_none.mp hfind t ((mem_liveTops h).mpr ht)
      rw [htop] at htop'
      exact hne (decide_eq_true (Option.some.inj htop').symm)
    | some t =>
      have ht := (mem_liveTops h).mp (List.mem_of_find?_eq_some hfind)
      have hguid : t.2.guid = topGuid := by simpa using List.find?_some hfind
      show (if named t.2 leaf = true then none else some (stale e _)).isSome = true ↔ _
      constructor
      · intro hsome
        refine ⟨t, ht, by rw [htop, hguid], leaf, hleaf, ?_⟩
        by_contra hnamed
        rw [if_pos (by simpa using hnamed)] at hsome
        cases hsome
      · rintro ⟨t', ht', htop', leaf', hleaf', hnamed⟩
        rw [htop] at htop'
        obtain rfl := ht.1.unique h ht'.1 (hguid.trans (Option.some.inj htop'))
        rw [hleaf] at hleaf'
        obtain rfl := Option.some.inj hleaf'
        rw [hnamed]
        rfl
  · rename_i hnone
    simp only [Option.isSome_none, Bool.false_eq_true, false_iff]
    rintro ⟨t, -, htop, leaf, hleaf, -⟩
    exact hnone _ _ htop hleaf

/-- What is set aside is of the device of this label. -/
theorem isStale_detached {tops : List (Nat × VdevNode)} {e : Entry} {device : Nat} :
    isStale (detached tops e).toList device = true ↔ e.1 = device ∧ (detached tops e).isSome := by
  rw [detached]
  split
  · split
    · split
      · simp [isStale]
      · simp [isStale, stale]
    · simp [isStale]
  · simp [isStale]

/-- One more label is set aside, or it was already. -/
theorem isStale_setAside {tops : List (Nat × VdevNode)} {s : List StaleMember} {e : Entry}
    {device : Nat} : isStale (setAside tops s e) device = true ↔
      isStale s device = true ∨ e.1 = device ∧ (detached tops e).isSome := by
  rw [setAside]
  by_cases hin : isStale s e.1 = true
  · rw [if_pos hin]
    refine ⟨.inl, fun h => h.elim id (fun h => ?_)⟩
    rw [← h.1]
    exact hin
  · rw [if_neg hin, isStale_append, Bool.or_eq_true, isStale_detached]

theorem isStale_foldl {tops : List (Nat × VdevNode)} {s : List StaleMember} {device : Nat} :
    isStale (entries.foldl (setAside tops) s) device = true ↔
      isStale s device = true ∨ ∃ e ∈ entries, e.1 = device ∧ (detached tops e).isSome := by
  induction entries generalizing s with
  | nil => simp
  | cons e entries ih =>
    rw [List.foldl_cons, ih, isStale_setAside, or_assoc]
    simp only [List.exists_mem_cons_iff]

theorem not_current {e : Entry} : ¬ Current entries e ↔ txgOf e = 0 ∨
    (∃ t, Newest entries t ∧ e.2.topGuid = some t.2.guid ∧ ¬ Committed entries t) ∨
      Detached entries e := by
  constructor
  · intro hnot
    by_contra hall
    obtain ⟨htxg, hother⟩ := not_or.mp hall
    obtain ⟨hsuper, hdetached⟩ := not_or.mp hother
    refine hnot ⟨htxg, fun t ht htop => ?_⟩
    have hlive : Committed entries t := by_contra fun hout => hsuper ⟨t, ht, htop, hout⟩
    refine ⟨hlive, fun leaf hleaf => ?_⟩
    by_contra hnamed
    exact hdetached ⟨t, hlive, htop, leaf, hleaf, by simpa using hnamed⟩
  · rintro (htxg | ⟨t, ht, htop, hout⟩ | ⟨t, ht, htop, leaf, hleaf, hnamed⟩) ⟨hne, hcurrent⟩
    · exact hne htxg
    · exact hout (hcurrent t ht htop).1
    · have htrue := (hcurrent t ht.1 htop).2 leaf hleaf
      rw [hnamed] at htrue
      cases htrue

/-- The stale devices are those with a label that is not current. -/
theorem isStale_staleMembers (h : OnePool entries) {device : Nat} :
    isStale (staleMembers entries) device = true ↔
      ∃ e ∈ entries, e.1 = device ∧ ¬ Current entries e := by
  simp only [staleMembers, isStale_foldl, isStale_append, Bool.or_eq_true, isStale_uncommitted,
    isStale_superseded h, detached_isSome h, not_current]
  constructor
  · rintro ((⟨e, he, hdevice, hout⟩ | ⟨e, he, hdevice, hout⟩) | ⟨e, he, hdevice, hout⟩)
    · exact ⟨e, he, hdevice, .inl hout⟩
    · exact ⟨e, he, hdevice, .inr (.inl hout)⟩
    · exact ⟨e, he, hdevice, .inr (.inr hout)⟩
  · rintro ⟨e, he, hdevice, hout | hout | hout⟩
    · exact .inl (.inl ⟨e, he, hdevice, hout⟩)
    · exact .inl (.inr ⟨e, he, hdevice, hout⟩)
    · exact .inr ⟨e, he, hdevice, hout⟩

end Committed

end Topology
end ZvolRescue
