import Mathlib.Data.Prod.Lex
import ZvolRescue.Topology.Stale

/-!
# Choosing the uberblock to read a pool at

The best uberblock is of the highest transaction group, and the latest of these.  What is chosen
from the candidates is the first that was met of its transaction group, which need not be it
(`select_best_iff`).
-/

namespace ZvolRescue

namespace Ondisk
namespace Uberblock

/-- The transaction group, then the time. -/
def rank (u : Uberblock) : Nat ×ₗ Nat := toLex (u.txg, u.timestamp)

/-- The uberblock that would be imported from. -/
def best (ubs : List Uberblock) : Option Uberblock := Lib.lastMax rank ubs

theorem rank_le {u v : Uberblock} :
    u.rank ≤ v.rank ↔ u.txg < v.txg ∨ u.txg = v.txg ∧ u.timestamp ≤ v.timestamp := by
  simp [rank, Prod.Lex.toLex_le_toLex]

end Uberblock
end Ondisk

namespace Topology

open Lib Ondisk Scan Timeline

/-- The transaction group to read a pool at. -/
inductive TxgSelect where
  | newest
  | exact_ (txg : Nat)
  /-- The highest whose uberblock is of this time or before it. -/
  | before (timestamp : Nat)
  deriving DecidableEq, Repr

/-- Choose among candidates, the newest first. -/
def selectUberblock (candidates : List Candidate) : TxgSelect → Option Candidate
  | .newest => candidates.head?
  | .exact_ txg => candidates.find? (fun c => c.ub.txg = txg)
  | .before timestamp => candidates.find? (fun c => c.ub.timestamp ≤ timestamp)

/-- The uberblocks that a selection is about. -/
def TxgSelect.admits : TxgSelect → Uberblock → Bool
  | .newest, _ => true
  | .exact_ txg, u => u.txg = txg
  | .before timestamp, u => u.timestamp ≤ timestamp

/-- The uberblocks of a pool that verified. -/
def verifiedUberblocks (scans : List (Option DeviceScan)) (devices : List Nat) :
    List Uberblock :=
  ((poolSlots scans devices).filter (fun s => s.2 = .ok)).map (fun s => s.1.ub)

/-- The best of the verified uberblocks that a selection is about. -/
def bestOf (scans : List (Option DeviceScan)) (devices : List Nat) (sel : TxgSelect) :
    Option Uberblock :=
  Uberblock.best ((verifiedUberblocks scans devices).filter sel.admits)

/-- What is chosen has the transaction group and the time of the best, and something is chosen
where there is a best. -/
def SelectsBest (scans : List (Option DeviceScan)) (devices : List Nat) (sel : TxgSelect) : Prop :=
  (selectUberblock (uberblockCandidates scans devices) sel).map (fun c => c.ub.rank) =
    (bestOf scans devices sel).map Uberblock.rank

/-- No uberblock of the highest transaction group that the selection is about is later than the
first that was met of the group, and the selection is about that one too. -/
def FirstIsBest (scans : List (Option DeviceScan)) (devices : List Nat) (sel : TxgSelect) : Prop :=
  ∀ u ∈ verifiedUberblocks scans devices, sel.admits u = true →
    (∀ v ∈ verifiedUberblocks scans devices, sel.admits v = true → v.txg ≤ u.txg) →
      u.txg ≠ 0 ∧ ∃ f, IsFirst (fun c => c.ub.txg) (verifiedSlots scans devices) f ∧
        f.ub.txg = u.txg ∧ sel.admits f.ub = true ∧ u.timestamp ≤ f.ub.timestamp

section Select

variable {scans : List (Option DeviceScan)} {devices : List Nat} {sel : TxgSelect}

theorem selectUberblock_eq (candidates : List Candidate) (sel : TxgSelect) :
    selectUberblock candidates sel = candidates.find? (fun c => sel.admits c.ub) := by
  cases sel with
  | newest => cases candidates <;> simp [selectUberblock, TxgSelect.admits]
  | exact_ txg => rfl
  | before timestamp => rfl

theorem mem_verifiedSlots {c : Candidate} (h : c ∈ verifiedSlots scans devices) :
    c.ub ∈ verifiedUberblocks scans devices ∧ c.ub.txg ≠ 0 := by
  obtain ⟨s, hs, rfl⟩ := List.mem_map.mp h
  obtain ⟨hmem, hok⟩ := List.mem_filter.mp hs
  have hok : s.2 = .ok ∧ s.1.ub.txg ≠ 0 := by simpa using hok
  refine ⟨List.mem_map.mpr ⟨s, List.mem_filter.mpr ⟨hmem, ?_⟩, rfl⟩, hok.2⟩
  simpa using hok.1

theorem candidates_sorted :
    (uberblockCandidates scans devices).Pairwise (fun a b => b.ub.txg ≤ a.ub.txg) := by
  have htrans : ∀ a b c : Candidate, decide (b.ub.txg ≤ a.ub.txg) = true →
      decide (c.ub.txg ≤ b.ub.txg) = true → decide (c.ub.txg ≤ a.ub.txg) = true := by
    simp only [decide_eq_true_eq]
    omega
  have htotal : ∀ a b : Candidate,
      (decide (b.ub.txg ≤ a.ub.txg) || decide (a.ub.txg ≤ b.ub.txg)) = true := by
    simp only [Bool.or_eq_true, decide_eq_true_eq]
    omega
  have h := List.pairwise_mergeSort htrans htotal ((poolSlots scans devices).foldl addSlot [])
  exact h.imp (fun h => of_decide_eq_true h)

/-- What is chosen is the candidate of the highest transaction group that is admitted. -/
theorem select_some {c : Candidate}
    (h : selectUberblock (uberblockCandidates scans devices) sel = some c) :
    IsFirst (fun c => c.ub.txg) (verifiedSlots scans devices) c ∧ sel.admits c.ub = true ∧
      ∀ f, IsFirst (fun c => c.ub.txg) (verifiedSlots scans devices) f →
        sel.admits f.ub = true → f.ub.txg ≤ c.ub.txg := by
  rw [selectUberblock_eq] at h
  obtain ⟨hadmits, before, after, hsplit, hnone⟩ := List.find?_eq_some_iff_append.mp h
  have hmem : c ∈ uberblockCandidates scans devices := by rw [hsplit]; simp
  refine ⟨mem_uberblockCandidates.mp hmem, hadmits, fun f hf hfadmits => ?_⟩
  have hfmem := mem_uberblockCandidates.mpr hf
  have hsorted := @candidates_sorted scans devices
  rw [hsplit] at hfmem hsorted
  rcases List.mem_append.mp hfmem with hin | hin
  · have hnot := hnone f hin
    rw [hfadmits] at hnot
    cases hnot
  · rcases List.mem_cons.mp hin with rfl | hin
    · exact le_rfl
    · exact (List.pairwise_cons.mp (List.pairwise_append.mp hsorted).2.1).1 f hin

theorem select_isSome {f : Candidate}
    (hf : IsFirst (fun c => c.ub.txg) (verifiedSlots scans devices) f)
    (hadmits : sel.admits f.ub = true) :
    ∃ c, selectUberblock (uberblockCandidates scans devices) sel = some c := by
  rw [selectUberblock_eq]
  refine Option.isSome_iff_exists.mp (List.find?_isSome.mpr ⟨f, ?_, hadmits⟩)
  exact mem_uberblockCandidates.mpr hf

/-- The best uberblock is admitted, and none that is admitted ranks above it. -/
theorem bestOf_some {b : Uberblock} (h : bestOf scans devices sel = some b) :
    (b ∈ verifiedUberblocks scans devices ∧ sel.admits b = true) ∧
      ∀ u ∈ verifiedUberblocks scans devices, sel.admits u = true → u.rank ≤ b.rank := by
  obtain ⟨hmem, hmax⟩ := lastMax_isMax h
  refine ⟨List.mem_filter.mp hmem, fun u hu hadmits => ?_⟩
  exact hmax u (List.mem_filter.mpr ⟨hu, hadmits⟩)

theorem bestOf_isSome {u : Uberblock} (hu : u ∈ verifiedUberblocks scans devices)
    (hadmits : sel.admits u = true) : ∃ b, bestOf scans devices sel = some b := by
  have hmem := List.mem_filter.mpr ⟨hu, hadmits⟩
  rcases lastMax_cases Uberblock.rank ((verifiedUberblocks scans devices).filter sel.admits)
    with ⟨hnil, -⟩ | ⟨b, hb, -⟩
  · rw [hnil] at hmem
    cases hmem
  · exact ⟨b, hb⟩

end Select

/-- What is chosen is the best exactly where the first uberblock met of the highest transaction
group is. -/
theorem select_best_iff (scans : List (Option DeviceScan)) (devices : List Nat) (sel : TxgSelect) :
    SelectsBest scans devices sel ↔ FirstIsBest scans devices sel := by
  constructor
  · intro h u hu hadmits hhighest
    obtain ⟨b, hb⟩ := bestOf_isSome hu hadmits
    obtain ⟨⟨hbmem, hbadmits⟩, hmax⟩ := bestOf_some hb
    have hbelow := hhighest b hbmem hbadmits
    have habove := Uberblock.rank_le.mp (hmax u hu hadmits)
    rw [SelectsBest, hb, Option.map_some, Option.map_eq_some_iff] at h
    obtain ⟨c, hc, hrank⟩ := h
    obtain ⟨hfirst, hcadmits, -⟩ := select_some hc
    have htxg : c.ub.txg = b.txg := congrArg Prod.fst (congrArg ofLex hrank)
    have htime : c.ub.timestamp = b.timestamp := congrArg Prod.snd (congrArg ofLex hrank)
    have hnonzero := (mem_verifiedSlots hfirst.mem).2
    exact ⟨by omega, c, hfirst, by omega, hcadmits, by omega⟩
  · intro h
    rw [SelectsBest]
    cases hb : bestOf scans devices sel with
    | none =>
      cases hc : selectUberblock (uberblockCandidates scans devices) sel with
      | none => rfl
      | some c =>
        obtain ⟨hfirst, hadmits, -⟩ := select_some hc
        obtain ⟨b, hb'⟩ := bestOf_isSome (mem_verifiedSlots hfirst.mem).1 hadmits
        rw [hb] at hb'
        cases hb'
    | some b =>
      obtain ⟨⟨hbmem, hbadmits⟩, hmax⟩ := bestOf_some hb
      have hhighest : ∀ v ∈ verifiedUberblocks scans devices, sel.admits v = true →
          v.txg ≤ b.txg := by
        intro v hv hvadmits
        have hle := Uberblock.rank_le.mp (hmax v hv hvadmits)
        omega
      obtain ⟨-, f, hfirst, htxg, hfadmits, htime⟩ := h b hbmem hbadmits hhighest
      obtain ⟨c, hc⟩ := select_isSome hfirst hfadmits
      obtain ⟨hcfirst, hcadmits, htop⟩ := select_some hc
      have hlow := htop f hfirst hfadmits
      have hhigh := hhighest c.ub (mem_verifiedSlots hcfirst.mem).1 hcadmits
      obtain rfl : c = f := hcfirst.unique hfirst (by omega)
      have hle := hmax c.ub (mem_verifiedSlots hcfirst.mem).1 hcadmits
      have hge : b.rank ≤ c.ub.rank := Uberblock.rank_le.mpr (.inr ⟨htxg.symm, htime⟩)
      rw [hc, Option.map_some, Option.map_some, le_antisymm hle hge]

/-- Three uberblocks of one transaction group, as a host writes them that has nothing to commit. -/
def multihostScans : List (Option DeviceScan) :=
  [some (deviceOf (labelOf 10 0x2001 [("type", .string "disk")])
    [uberblockOf 10 200, uberblockOf 10 100, uberblockOf 10 300])]

/-- The newest is not the latest, and none is found of a time before the first. -/
theorem multihost_not_best : ∃ pool ∈ assemble multihostScans,
    ¬ SelectsBest multihostScans pool.devices .newest ∧
      ¬ SelectsBest multihostScans pool.devices (.before 150) ∧
      selectUberblock (uberblockCandidates multihostScans pool.devices) (.before 150) = none := by
  refine ⟨assemblePool 0x2000 (configs multihostScans), ?_, ?_⟩
  · refine mem_assemble.mpr ⟨(0, LabelConfig.fromNvlist (labelOf 10 0x2001
      [("type", .string "disk")])), ?_, rfl⟩
    exact List.mem_cons_self
  · simp only [SelectsBest]
    decide +kernel

end Topology
end ZvolRescue
