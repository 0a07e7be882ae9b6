import ZvolRescue.Crypt.Keys
import ZvolRescue.Extract.Find
import ZvolRescue.Zpl.Znodes

/-!
# Opening a filesystem by its name

The newest transaction group whose tree names the dataset decides whether the dataset opens; no
older one is tried after it, whatever comes of it (`withDataset_newest`).
-/

namespace ZvolRescue
namespace Files

open Lib Ondisk Zio Dmu Dsl Zpl
open ZvolRescue.Crypt (Ciphers Kdf KeySource RootKeys unlock)
open ZvolRescue.Extract (Exit.unrecoverable admitted admitted_sorted walkAt)
open ZvolRescue.Scan (DeviceScan)
open ZvolRescue.Timeline (Candidate uberblockCandidates)

section Source

variable {σ : Type} (reader : Installed → Option RootKeys → PoolReader (StateM σ))
  (source : KeySource) (kdf : Kdf) (c : Ciphers) (poolName name : String)
  (key : Option (List Char))

/-- A dataset that is opened, and the transaction group that it was opened at. -/
abbrev AtTxg (σ : Type) := Candidate × OpenDataset (StateM σ)

/-- Open the dataset that a tree names, unlocked first where it is encrypted.  Without its keys none
of its blocks can be read. -/
def openNamed (i : Installed) (at_ : Candidate) (ds : Dsl.Dataset) :
    StateM σ (Except Nat (AtTxg σ)) := do
  let keys :=
    match ds.encryption with
    | none => Except.ok none
    | some enc => (unlock source kdf c enc key).map some
  match keys with
  | .error code => pure (.error code)
  | .ok keys => do
    match ← openFilesystem (reader i keys) ds with
    | .error _ => pure (.error Exit.unrecoverable)
    | .ok fs => pure (.ok (at_, fs))

/-- The dataset that the tree names, if it was read. -/
def named (tree : Except ReadError DatasetTree) : Option Dsl.Dataset :=
  match tree with
  | .error _ => none
  | .ok tree => tree.datasets.find? (fun d => d.name = name)

/-- The tree at a transaction group, read without keys, and what comes of it. -/
def openAt (x : Installed × σ) (at_ : Candidate) :
    Option (Except Nat (AtTxg σ)) × (Installed × σ) :=
  let walked := walkAt (fun i => reader i none) x.1 at_.ub poolName x.2
  match named name walked.1.1 with
  | none => (none, (walked.1.2, walked.2))
  | some ds =>
    let opened := openNamed reader source kdf c key walked.1.2 at_ ds walked.2
    (some opened.1, (walked.1.2, opened.2))

/-- The dataset at the transaction group that is asked for, or at the newest. -/
def withDataset (candidates : List Candidate) (txg : Option Nat) (i : Installed) (w : σ) :
    Except Nat (AtTxg σ) :=
  (tryEach (openAt reader source kdf c poolName name key) (admitted candidates txg) (i, w)).1.getD
    (.error Exit.unrecoverable)

/-- The dataset that the tree at a transaction group names, in a state of the search. -/
def namedAt (x : Installed × σ) (at_ : Candidate) : Option Dsl.Dataset :=
  named name (walkAt (fun i => reader i none) x.1 at_.ub poolName x.2).1.1

end Source

section Opened

variable {σ : Type} {reader : Installed → Option RootKeys → PoolReader (StateM σ)}
  {source : KeySource} {kdf : Kdf} {c : Ciphers} {poolName name : String}
  {key : Option (List Char)} {x : Installed × σ} {at_ : Candidate}

theorem openAt_none : (openAt reader source kdf c poolName name key x at_).1 = none ↔
    namedAt reader poolName name x at_ = none := by
  rw [openAt, namedAt]
  cases named name (walkAt (fun i => reader i none) x.1 at_.ub poolName x.2).1.1 with
  | none => simp
  | some ds => simp

variable (source kdf c key) in
theorem openAt_some {ds : Dsl.Dataset} (h : namedAt reader poolName name x at_ = some ds) :
    (openAt reader source kdf c poolName name key x at_).1 =
      some (openNamed reader source kdf c key
        (walkAt (fun i => reader i none) x.1 at_.ub poolName x.2).1.2 at_ ds
        (walkAt (fun i => reader i none) x.1 at_.ub poolName x.2).2).1 := by
  rw [namedAt] at h
  rw [openAt]
  dsimp only
  rw [h]

/-- Where no transaction group names the dataset there is none to open; else the newest that does is
the one that is opened, or that fails. -/
theorem withDataset_newest (reader : Installed → Option RootKeys → PoolReader (StateM σ))
    (source : KeySource) (kdf : Kdf) (c : Ciphers) (poolName name : String)
    (key : Option (List Char)) (scans : List (Option DeviceScan)) (devices : List Nat)
    (txg : Option Nat) (i : Installed) (w : σ) :
    let candidates := admitted (uberblockCandidates scans devices) txg
    let state := reached (fun b => b.ub.txg) (openAt reader source kdf c poolName name key) (i, w)
      candidates
    let opened := withDataset reader source kdf c poolName name key
      (uberblockCandidates scans devices) txg i w
    ((∀ b ∈ candidates, namedAt reader poolName name (state b) b = none) →
      opened = .error Exit.unrecoverable) ∧
    ∀ a ∈ candidates, ∀ ds, namedAt reader poolName name (state a) a = some ds →
      (∀ b ∈ candidates, a.ub.txg < b.ub.txg →
        namedAt reader poolName name (state b) b = none) →
      opened = (openNamed reader source kdf c key
        (walkAt (fun i => reader i none) (state a).1 a.ub poolName (state a).2).1.2 a ds
        (walkAt (fun i => reader i none) (state a).1 a.ub poolName (state a).2).2).1 := by
  intro candidates state opened
  have hsorted := admitted_sorted scans devices txg
  refine ⟨fun hnone => ?_, fun a ha ds hnamed hnewer => ?_⟩
  · have hpasses : Passes (openAt reader source kdf c poolName name key) (i, w) candidates :=
      (passes_iff_reached hsorted).mpr (fun b hb => openAt_none.mpr (hnone b hb))
    show (tryEach _ candidates (i, w)).1.getD _ = _
    rw [tryEach_eq_none.mpr ⟨hpasses, rfl⟩]
    rfl
  · have hsome := openAt_some source kdf c key hnamed
    have hrun := (tryEach_reached hsorted).mpr
      ⟨a, ha, fun b hb hlt => openAt_none.mpr (hnewer b hb hlt), Prod.ext hsome rfl⟩
    show (tryEach _ candidates (i, w)).1.getD _ = _
    rw [hrun]
    rfl

end Opened

end Files
end ZvolRescue
