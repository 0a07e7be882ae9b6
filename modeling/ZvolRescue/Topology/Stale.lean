import ZvolRescue.Timeline.Candidates
import ZvolRescue.Topology.Pool

/-!
# Stale members

No leaf is backed by a stale device.  The uberblocks of stale devices are still offered, where
no other device has one of their transaction group before them.
-/

namespace ZvolRescue
namespace Topology

open Lib Ondisk Scan Timeline

/-- No leaf and no uberblock that the pool offers comes from a stale device. -/
def StaleUnused (scans : List (Option DeviceScan)) (pool : PoolAssembly) : Prop :=
  (∀ top ∈ pool.tops, ∀ m ∈ top.members, ∀ device, m.present = some device →
    isStale pool.stale device = false) ∧
  ∀ c ∈ uberblockCandidates scans pool.devices, isStale pool.stale c.device = false

/-- Before each verified uberblock of a stale device there is one of the same transaction group on
a device that is not stale. -/
def StaleOutdone (scans : List (Option DeviceScan)) (pool : PoolAssembly) : Prop :=
  ∀ before c after, verifiedSlots scans pool.devices = before ++ c :: after →
    isStale pool.stale c.device = true →
      ∃ b ∈ before, b.ub.txg = c.ub.txg ∧ isStale pool.stale b.device = false

theorem leafOwner_not_stale {entries : List Entry} {stale : List StaleMember} {leaf device : Nat}
    (h : leafOwner entries stale leaf = some device) : isStale stale device = false := by
  obtain ⟨e, he, rfl⟩ := Option.map_eq_some_iff.mp h
  have hmem := List.mem_filter.mp (List.mem_of_find?_eq_some he)
  simpa using hmem.2

theorem mem_assembleTops {entries : List Entry} {top : TopVdev} (h : top ∈ assembleTops entries) :
    ∃ t ∈ liveTops (topsByGuid entries),
      top = topVdev (leafOwner entries (staleMembers entries)) t.2 := by
  obtain ⟨t, ht, rfl⟩ := List.mem_map.mp (mem_sortByKey.mp h)
  exact ⟨t, ht, rfl⟩

/-- A leaf is never backed by a stale device. -/
theorem member_not_stale {entries : List Entry} {top : TopVdev} (htop : top ∈ assembleTops entries)
    {m : Member} (hm : m ∈ top.members) {device : Nat} (hdevice : m.present = some device) :
    isStale (staleMembers entries) device = false := by
  obtain ⟨t, _, rfl⟩ := mem_assembleTops htop
  obtain ⟨leaf, _, rfl⟩ := List.mem_map.mp hm
  exact leafOwner_not_stale hdevice

theorem mem_assemble {scans : List (Option DeviceScan)} {pool : PoolAssembly} :
    pool ∈ assemble scans ↔ ∃ e ∈ configs scans, pool = assemblePool (poolGuidOf e)
      ((configs scans).filter (fun e' => poolGuidOf e' = poolGuidOf e)) := by
  simp only [assemble, List.mem_map, mem_sortedKeys]
  constructor
  · rintro ⟨_, ⟨e, he, rfl⟩, rfl⟩
    exact ⟨e, he, rfl⟩
  · rintro ⟨e, he, rfl⟩
    exact ⟨_, ⟨e, he, rfl⟩, rfl⟩

/-- Of the first uberblocks of their transaction groups none is stale where each stale one is
outdone. -/
theorem staleOutdone_iff {scans : List (Option DeviceScan)} {pool : PoolAssembly} :
    (∀ c ∈ uberblockCandidates scans pool.devices, isStale pool.stale c.device = false) ↔
      StaleOutdone scans pool := by
  constructor
  · intro h before c after hsplit hstale
    have hmem : c ∈ verifiedSlots scans pool.devices := by rw [hsplit]; simp
    obtain ⟨f, hkey, hfirst⟩ : ∃ f, f.ub.txg = c.ub.txg ∧
      IsFirst (fun b : Candidate => b.ub.txg) (verifiedSlots scans pool.devices) f :=
      IsFirst.exists_of_mem hmem
    have hlive := h f (mem_uberblockCandidates.mpr hfirst)
    rw [hsplit, IsFirst.append_iff, IsFirst.cons_iff] at hfirst
    rcases hfirst with hbefore | ⟨-, rfl | ⟨hne, -⟩⟩
    · exact ⟨f, hbefore.mem, hkey, hlive⟩
    · rw [hlive] at hstale
      cases hstale
    · exact absurd hkey.symm hne
  · intro h c hc
    have hfirst := mem_uberblockCandidates.mp hc
    obtain ⟨-, before, after, hsplit, hnew⟩ := List.find?_eq_some_iff_append.mp hfirst
    by_contra hstale
    obtain ⟨b, hb, htxg, -⟩ := h before c after hsplit (by simpa using hstale)
    simpa [htxg] using hnew b hb

/-- The stale devices of a pool are used exactly where an uberblock of one is the first of its
transaction group. -/
theorem staleUnused_iff {scans : List (Option DeviceScan)} {pool : PoolAssembly}
    (h : pool ∈ assemble scans) : StaleUnused scans pool ↔ StaleOutdone scans pool := by
  obtain ⟨e, _, rfl⟩ := mem_assemble.mp h
  rw [StaleUnused, staleOutdone_iff]
  refine and_iff_right (fun top htop m hm device hdevice => ?_)
  exact member_not_stale htop hm hdevice

/-! ## A disk that was detached while it was out -/

/-- A label of this transaction group, of this leaf of this top-level vdev. -/
def labelOf (txg guid : Nat) (tree : List (String × Value)) : NvList :=
  .mk 0 1 [("name", .string "tank"), ("txg", .uint64 txg), ("pool_guid", .uint64 0x2000),
    ("guid", .uint64 guid), ("top_guid", .uint64 0x2001),
    ("vdev_tree", .list (.mk 0 1 (("id", .uint64 0) :: ("guid", .uint64 0x2001) :: tree)))]

def diskOf (guid : Nat) : NvList :=
  .mk 0 1 [("type", .string "disk"), ("guid", .uint64 guid)]

def uberblockOf (txg timestamp : Nat) : Uberblock :=
  { endian := .little, version := 5000, txg, guidSum := 0, timestamp, rootbp := []
    softwareVersion := 5000, mmpMagic := 0, mmpDelay := 0, mmpConfig := 0, checkpointTxg := 0 }

/-- A device with one label, whose ring holds these uberblocks. -/
def deviceOf (config : NvList) (ring : List Uberblock) : DeviceScan :=
  { size := 0x1000000, psize := 0x1000000, base := 0, baseSource := none
    labels := [{ index := 0, offset := 0, physChecksum := .ok, config := some config
                 configError := none, slotShift := 12
                 uberblocks := ring.zipIdx.map (fun u => { slot := u.2, ub := u.1, checksum := .ok })
                 invalid := [], slots := 32 }]
    bestLabel := some 0, surfaceScanRefused := false, lastSector := none }

/-- One side of a mirror as it was, and the disk that is left of it. -/
def detachedScans : List (Option DeviceScan) :=
  [some (deviceOf (labelOf 34 0x2002 [("type", .string "mirror"),
      ("children", .listArray [diskOf 0x2002, diskOf 0x2003])]) [uberblockOf 34 1]),
    some (deviceOf (labelOf 59 0x2001 [("type", .string "disk")]) [uberblockOf 59 2])]

def detachedPool : PoolAssembly := assemblePool 0x2000 (configs detachedScans)

theorem detachedPool_mem : detachedPool ∈ assemble detachedScans := by
  refine mem_assemble.mpr ⟨(1, LabelConfig.fromNvlist (labelOf 59 0x2001
    [("type", .string "disk")])), ?_, rfl⟩
  exact List.mem_cons_of_mem _ List.mem_cons_self

/-- The uberblock of the side that was detached is offered. -/
theorem detached_used : ∃ pool ∈ assemble detachedScans, ¬ StaleUnused detachedScans pool := by
  refine ⟨detachedPool, detachedPool_mem, fun h => ?_⟩
  have hslots : verifiedSlots detachedScans detachedPool.devices =
      [{ ub := uberblockOf 34 1, device := 0, label := 0 },
        { ub := uberblockOf 59 2, device := 1, label := 0 }] := by
    decide
  have hstale : isStale detachedPool.stale 0 = true := by decide +kernel
  obtain ⟨b, hb, -⟩ := staleOutdone_iff.mp h.2 [] _ _ hslots hstale
  cases hb

theorem staleUnused_iff_detached :
    StaleUnused detachedScans detachedPool ↔ StaleOutdone detachedScans detachedPool :=
  staleUnused_iff detachedPool_mem

end Topology
end ZvolRescue
