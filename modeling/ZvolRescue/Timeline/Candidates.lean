import Mathlib.Data.List.Nodup
import ZvolRescue.Lib.Firsts
import ZvolRescue.Scan.Vdev

/-!
# The transaction groups that can still be read

Every uberblock that verified is a candidate, the first of each transaction group.
-/

namespace ZvolRescue
namespace Timeline

open Lib Ondisk Scan

/-- An uberblock that verified, and where it was found. -/
structure Candidate where
  ub : Uberblock
  device : Nat
  label : Nat
  deriving DecidableEq, Repr

/-- The slots of the members of a pool, device by device and label by label. -/
def poolSlots (scans : List (Option DeviceScan)) (devices : List Nat) :
    List (Candidate × ChecksumStatus) :=
  devices.flatMap (fun dev =>
    match scans[dev]? with
    | some (some scan) => scan.labels.flatMap (fun label =>
        label.uberblocks.map (fun slot =>
          ({ ub := slot.ub, device := dev, label := label.index }, slot.checksum)))
    | _ => [])

/-- One more slot: it has to verify, and be the first of its transaction group. -/
def addSlot (out : List Candidate) (slot : Candidate × ChecksumStatus) : List Candidate :=
  if slot.2 ≠ .ok ∨ slot.1.ub.txg = 0 then out
  else if out.any (fun c => c.ub.txg = slot.1.ub.txg) then out
  else out ++ [slot.1]

/-- Every verified uberblock of a pool, one for each transaction group, the newest first. -/
def uberblockCandidates (scans : List (Option DeviceScan)) (devices : List Nat) :
    List Candidate :=
  ((poolSlots scans devices).foldl addSlot []).mergeSort (fun a b => b.ub.txg ≤ a.ub.txg)

/-- No two of the candidates are of one transaction group. -/
def OnePerTxg (l : List Candidate) : Prop := (l.map (fun c => c.ub.txg)).Nodup

theorem OnePerTxg.addSlot {out : List Candidate} (h : OnePerTxg out)
    (slot : Candidate × ChecksumStatus) : OnePerTxg (addSlot out slot) := by
  rw [Timeline.addSlot]
  by_cases hskip : slot.2 ≠ .ok ∨ slot.1.ub.txg = 0
  · rw [if_pos hskip]
    exact h
  · rw [if_neg hskip]
    by_cases hmet : out.any (fun c => c.ub.txg = slot.1.ub.txg) = true
    · rw [if_pos hmet]
      exact h
    · rw [if_neg hmet, OnePerTxg, List.map_append, List.nodup_append]
      refine ⟨h, List.nodup_singleton _, fun t ht t' ht' heq => hmet ?_⟩
      obtain ⟨c, hc, rfl⟩ := List.mem_map.mp ht
      rw [List.map_singleton, List.mem_singleton] at ht'
      exact List.any_eq_true.mpr ⟨c, hc, by simp [heq, ht']⟩

theorem uberblockCandidates_onePerTxg (scans : List (Option DeviceScan)) (devices : List Nat) :
    OnePerTxg (uberblockCandidates scans devices) := by
  have hfold : ∀ (slots : List (Candidate × ChecksumStatus)) (out : List Candidate),
      OnePerTxg out → OnePerTxg (slots.foldl addSlot out) := by
    intro slots
    induction slots with
    | nil =>
      intro out h
      exact h
    | cons slot slots ih =>
      intro out h
      exact ih _ (h.addSlot slot)
  have hperm := (List.mergeSort_perm ((poolSlots scans devices).foldl addSlot [])
    (fun a b => b.ub.txg ≤ a.ub.txg)).map (fun c => c.ub.txg)
  exact hperm.nodup_iff.mpr (hfold _ [] List.nodup_nil)

/-- The uberblocks of a pool that verified and are of a transaction group, as they are met. -/
def verifiedSlots (scans : List (Option DeviceScan)) (devices : List Nat) : List Candidate :=
  ((poolSlots scans devices).filter (fun s => s.2 = .ok ∧ s.1.ub.txg ≠ 0)).map Prod.fst

theorem mem_foldl_addSlot {slots : List (Candidate × ChecksumStatus)} {out : List Candidate}
    {c : Candidate} : c ∈ slots.foldl addSlot out ↔ c ∈ out ∨
      (∀ b ∈ out, b.ub.txg ≠ c.ub.txg) ∧ IsFirst (fun b => b.ub.txg)
        ((slots.filter (fun s => s.2 = .ok ∧ s.1.ub.txg ≠ 0)).map Prod.fst) c := by
  induction slots generalizing out with
  | nil => simp [IsFirst.not_nil]
  | cons slot slots ih =>
    rw [List.foldl_cons, ih, addSlot]
    by_cases hskip : slot.2 ≠ .ok ∨ slot.1.ub.txg = 0
    · have hneg : ¬ (slot.2 = .ok ∧ slot.1.ub.txg ≠ 0) := fun h =>
        hskip.elim (fun hne => hne h.1) h.2
      rw [if_pos hskip, List.filter_cons_of_neg (by simpa using hneg)]
    · rw [if_neg hskip, List.filter_cons_of_pos (by simpa using not_or.mp hskip), List.map_cons,
        IsFirst.cons_iff]
      by_cases hmet : out.any (fun b => b.ub.txg = slot.1.ub.txg) = true
      · obtain ⟨b, hb, htxg⟩ := List.any_eq_true.mp hmet
        rw [if_pos hmet]
        refine or_congr_right (and_congr_right (fun hnew => ?_))
        have hne : slot.1.ub.txg ≠ c.ub.txg := by
          rw [← of_decide_eq_true htxg]
          exact hnew b hb
        have hother : slot.1 ≠ c := fun heq => hne (by rw [heq])
        simp [hne, hother]
      · have hfresh : ∀ b ∈ out, b.ub.txg ≠ slot.1.ub.txg := by simpa using hmet
        rw [if_neg hmet]
        simp only [List.mem_append, List.mem_singleton]
        constructor
        · rintro ((hin | rfl) | ⟨hnew, hfirst⟩)
          · exact .inl hin
          · exact .inr ⟨hfresh, .inl rfl⟩
          · have hslot := hnew slot.1 (.inr rfl)
            exact .inr ⟨fun b hb => hnew b (.inl hb), .inr ⟨hslot, hfirst⟩⟩
        · rintro (hin | ⟨hnew, rfl | ⟨hslot, hfirst⟩⟩)
          · exact .inl (.inl hin)
          · exact .inl (.inr rfl)
          · refine .inr ⟨?_, hfirst⟩
            rintro b (hb | rfl)
            · exact hnew b hb
            · exact hslot

/-- The candidates are the first that verified of each transaction group. -/
theorem mem_uberblockCandidates {scans : List (Option DeviceScan)} {devices : List Nat}
    {c : Candidate} : c ∈ uberblockCandidates scans devices ↔
      IsFirst (fun b => b.ub.txg) (verifiedSlots scans devices) c := by
  rw [uberblockCandidates, List.mem_mergeSort, mem_foldl_addSlot]
  simp [verifiedSlots]

end Timeline
end ZvolRescue
