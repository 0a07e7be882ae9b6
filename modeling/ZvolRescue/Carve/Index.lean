import Mathlib.Data.List.Destutter
import Mathlib.Data.String.Basic
import Mathlib.Algebra.Order.Ring.Rat
import ZvolRescue.Lib.Ranked
import ZvolRescue.Lib.Word
import ZvolRescue.Ondisk.Carve

/-!
# The candidate index

A scan adds what it found to the candidates it keeps, drops those it met before, ranks the
rest and numbers them afresh.  The number that a dnode gets is how many rank ahead of it
(`Index.named_scan`).
-/

namespace ZvolRescue
namespace Carve

open Lib Ondisk

/-! ## Identifiers -/

/-- The identifier of the `n`-th candidate, `c` and at least four digits. -/
def candidateId (n : Nat) : String :=
  let digits := Nat.toDigits 10 n
  String.ofList ('c' :: (List.replicate (4 - digits.length) '0' ++ digits))

theorem candidateId_injective : Function.Injective candidateId := by
  intro a b h
  have hdigits := List.tail_eq_of_cons_eq (String.ofList_injective h)
  have hvalue := congrArg (fun l => Nat.ofDigitChars 10 l 0) hdigits
  simpa [Nat.ofDigitChars_append] using hvalue

/-! ## Candidates -/

/-- Where a dnode lies: the member, the offset of the dnode or of the compressed block that
holds it, and the slot inside that block. -/
structure Site where
  path : String
  offset : Nat
  slot : Nat
  deriving DecidableEq, Repr

/-- What a scan makes of one hit on a member. -/
structure Hit where
  /-- Member it was found on. -/
  device : Nat
  path : String
  offset : Nat
  slot : Nat
  score : ℚ
  /-- The sizes that what was recognised inside says the volume was made for. -/
  contents : List (Option Nat)
  /-- What the bytes that the index keeps of the dnode parse to. -/
  dnode : DnodePhys
  blocksize : dnode.datablksz ≠ 0
  contents_lt : ∀ size, some size ∈ contents → size < word

/-- One candidate volume. -/
structure Candidate extends Hit where
  /-- What `list` prints and `dump` takes. -/
  id : String

namespace Candidate

def site (c : Candidate) : Site := { path := c.path, offset := c.offset, slot := c.slot }

/-- What two meetings of one dnode agree on. -/
def place (c : Candidate) : ℕ ×ₗ ℕ ×ₗ ℕ := toLex (c.device, toLex (c.offset, c.slot))

/-- Best first, and by id where they tie. -/
def standing (c : Candidate) : ℚᵒᵈ ×ₗ String := toLex (OrderDual.toDual c.score, c.id)

end Candidate

/-- The candidates after those that were kept and these hits, in the order they were met. -/
def found (kept : List Candidate) (hits : List Hit) : List Candidate :=
  hits.foldl (fun cs hit => cs ++ [{ hit with id := candidateId (cs.length + 1) }]) kept

/-- Each dnode once. -/
def distinct (cs : List Candidate) : List Candidate :=
  (sortByKey Candidate.place cs).destutter (fun a b => a.place ≠ b.place)

def ranked (cs : List Candidate) : List Candidate := sortByKey Candidate.standing (distinct cs)

def renumber (cs : List Candidate) : List Candidate :=
  cs.mapIdx (fun n c => { c with id := candidateId (n + 1) })

/-- How many candidates rank ahead of this one. -/
def ahead (cs : List Candidate) (c : Candidate) : Nat :=
  cs.countP (fun d => d.standing < c.standing)

/-- The identifiers count the candidates. -/
def Numbered (cs : List Candidate) : Prop :=
  cs.map Candidate.id = (List.range cs.length).map (fun n => candidateId (n + 1))

theorem renumber_numbered (cs : List Candidate) : Numbered (renumber cs) := by
  apply List.ext_getElem?
  intro n
  by_cases h : n < cs.length
  · simp [renumber, h]
  · simp [renumber, h]

theorem Numbered.concat {cs : List Candidate} (h : Numbered cs) (hit : Hit) :
    Numbered (cs ++ [{ hit with id := candidateId (cs.length + 1) }]) := by
  unfold Numbered at h ⊢
  rw [List.map_append, h, List.length_append, List.length_singleton, List.range_succ,
    List.map_append]
  rfl

theorem Numbered.found {kept : List Candidate} (h : Numbered kept) (hits : List Hit) :
    Numbered (found kept hits) := by
  unfold Carve.found
  induction hits generalizing kept with
  | nil => exact h
  | cons hit hits ih => exact ih (h.concat hit)

theorem Numbered.nodup {cs : List Candidate} (h : Numbered cs) : (cs.map Candidate.id).Nodup := by
  rw [h]
  refine List.nodup_range.map ?_
  intro a b hab
  simpa using candidateId_injective hab

/-- No two candidates that are told apart by their identifiers stand at one place. -/
theorem Numbered.standing_nodup {cs : List Candidate} (h : Numbered cs) :
    ((distinct cs).map Candidate.standing).Nodup := by
  have hsub : ((distinct cs).map Candidate.id).Sublist
      ((sortByKey Candidate.place cs).map Candidate.id) := (List.destutter_sublist _ _).map _
  have hids := hsub.nodup (((sortByKey_perm _ cs).map _).nodup_iff.mpr h.nodup)
  have hmap : (distinct cs).map Candidate.id =
      ((distinct cs).map Candidate.standing).map (fun s => (ofLex s).2) := by
    rw [List.map_map]
    rfl
  rw [hmap] at hids
  exact List.Nodup.of_map _ hids

/-! ## The index of a workspace -/

/-- The candidates of a workspace. -/
structure Index where
  candidates : List Candidate
  numbered : Numbered candidates

namespace Index

def empty : Index := { candidates := [], numbered := rfl }

/-- The candidate of this identifier. -/
def named (i : Index) (id : String) : Option Candidate := i.candidates.find? (fun c => c.id = id)

/-- The index after a scan: of what an earlier one holds, if that is kept, and of the hits. -/
def scan (earlier : Option Index) (hits : List Hit) : Index :=
  { candidates := renumber (ranked (found ((earlier.getD empty).candidates) hits))
    numbered := renumber_numbered _ }

theorem named_id {i : Index} {id : String} {c : Candidate} (h : i.named id = some c) :
    c.id = id := by
  have := List.find?_some h
  simpa using this

/-- What a scan numbers `n` is a dnode with `n - 1` others ahead of it. -/
theorem named_scan {earlier : Option Index} {hits : List Hit} {id : String} {c : Candidate}
    (h : (scan earlier hits).named id = some c) :
    ∃ d ∈ distinct (found ((earlier.getD empty).candidates) hits), d.site = c.site ∧
      candidateId (ahead (distinct (found ((earlier.getD empty).candidates) hits)) d + 1) = id := by
  have hnumbered := (earlier.getD empty).numbered.found hits
  obtain ⟨n, hn⟩ := List.getElem?_of_mem (List.mem_of_find?_eq_some h)
  simp only [scan, renumber, List.getElem?_mapIdx, Option.map_eq_some_iff] at hn
  obtain ⟨d, hd, rfl⟩ := hn
  refine ⟨d, mem_sortByKey.mp (List.mem_of_getElem? hd), rfl, ?_⟩
  rw [ahead, countP_of_sortByKey hnumbered.standing_nodup hd]
  exact named_id h

end Index

end Carve
end ZvolRescue
