import ZvolRescue.Dsl.Accounts

/-!
# The tree of the datasets

The tree of a pool is what lies below its root directory, however deep.  A walk lists the GUIDs
of the directories that its trip meets (`walkFrom_guids`), and where no directory lies too deep
those are the GUIDs of the whole tree that can be read (`Reached.of_inTree`).
-/

namespace ZvolRescue
namespace Dsl

open Lib Ondisk Zio Dmu

section Tree

variable (mos : DnodeArray Id)

/-- The head dataset of a directory or one of its snapshots has this GUID. -/
def Gives (dirObj guid : Nat) : Prop :=
  ∃ obj ∈ objects mos dirObj, ∃ phys, (readDataset mos obj).run = .ok phys ∧ phys.guid = guid

/-- A directory somewhere below the root gives this GUID. -/
def InTree (root guid : Nat) : Prop :=
  ∃ n dirObj, Chain Prod.fst (next mos) n root dirObj ∧ Gives mos dirObj guid

/-- A directory that the trip of a walk meets gives this GUID. -/
def Reached (poolName : String) (root guid : Nat) : Prop :=
  ∃ dirObj ∈ (trip mos poolName root).keys Prod.fst, Gives mos dirObj guid

variable {mos}

theorem listing_guids {originSnap : Nat} {a : Node} {guid : Nat} :
    (∃ d ∈ listing mos originSnap a, d.guid = guid) ↔ Gives mos a.1 guid := by
  have hobjects := listing_objects mos originSnap a
  constructor
  · rintro ⟨d, hd, rfl⟩
    obtain ⟨phys, hread, hguid⟩ := listing_described hd
    exact ⟨d.object, hobjects.mem_iff.mp (List.mem_map_of_mem hd), phys, hread, hguid.symm⟩
  · rintro ⟨obj, hobj, phys, hread, rfl⟩
    obtain ⟨d, hd, rfl⟩ := List.mem_map.mp (hobjects.mem_iff.mpr hobj)
    obtain ⟨phys', hread', hguid⟩ := listing_described hd
    rw [hread] at hread'
    cases hread'
    exact ⟨d, hd, hguid⟩

/-- A walk lists the GUIDs that its trip reaches. -/
theorem walkFrom_guids {poolName : String} {root guid : Nat} :
    (∃ d ∈ (walkFrom mos poolName root).run.tree.datasets, d.guid = guid) ↔
      Reached mos poolName root guid := by
  have hstands := walkFrom_stands mos poolName root
  constructor
  · rintro ⟨d, hd, hguid⟩
    obtain ⟨a, ha, hda⟩ := hstands.mem_datasets.mp hd
    exact ⟨a.1, List.mem_map_of_mem ha, listing_guids.mp ⟨d, hda, hguid⟩⟩
  · rintro ⟨o, ho, hgives⟩
    obtain ⟨a, ha, rfl⟩ := List.mem_map.mp ho
    obtain ⟨d, hd, hguid⟩ := listing_guids.mpr hgives
    exact ⟨d, hstands.mem_datasets.mpr ⟨a, ha, hd⟩, hguid⟩

/-- What is reached is in the tree. -/
theorem Reached.inTree {poolName : String} {root guid : Nat} (h : Reached mos poolName root guid) :
    InTree mos root guid := by
  obtain ⟨dirObj, hkey, hgives⟩ := h
  obtain ⟨a, ha, rfl⟩ := List.mem_map.mp hkey
  rcases dfs_chain (maxDepth + 1) (root, poolName) Trip.start a ha with hold | ⟨n, -, hchain⟩
  · cases hold
  · exact ⟨n, a.1, hchain, hgives⟩

/-- The objects of the children do not depend on the name of their parent. -/
theorem next_objects {a b : Node} (h : a.1 = b.1) :
    (next mos a).map Prod.fst = (next mos b).map Prod.fst := by
  have hobject : ∀ (name name' : String) (e : Zap.Entry),
      (childOf name e).map Prod.fst = (childOf name' e).map Prod.fst := by
    intro name name' e
    rw [childOf, childOf]
    cases e.value with
    | u64 obj => by_cases hbook : isBookkeeping e.name = true <;> simp [hbook]
    | _ => rfl
  simp only [next, List.map_filterMap, h, hobject a.2 b.2]

/-- What can be read of the tree is reached, where no directory lies too deep. -/
theorem Reached.of_inTree {poolName : String} {root guid : Nat}
    (hshort : ∀ k, ¬ Chain Prod.fst (next mos) (maxDepth + 1) root k)
    (h : InTree mos root guid) : Reached mos poolName root guid := by
  obtain ⟨n, dirObj, hchain, hgives⟩ := h
  have hkey := dfs_complete (a := (root, poolName)) (fun a b hab => next_objects hab) hshort hchain
  exact ⟨dirObj, hkey, hgives⟩

end Tree

end Dsl
end ZvolRescue
