import ZvolRescue.Lib.Ranked
import ZvolRescue.Lib.Word
import ZvolRescue.Ondisk.Checksum

/-!
# The zero point from pointers

A pointer tests a base: the block it points to must have its checksum.  `search` goes over the
bases in steps, the largest first, and keeps what it finds at the first step with any base.  So
it reports the best base just where one found at that step is (`search_best_iff`).
-/

namespace ZvolRescue
namespace Carve
namespace Pointers

open Lib Ondisk

/-- A block pointer, used as a probe for the zero point. -/
structure Anchor where
  /-- Relative to the allocatable space of the vdev. -/
  offset : Nat
  psize : Nat
  checksum : Checksum
  cksum : Words
  endian : Endian
  encrypted : Bool

/-- A device whose reads give what it holds, or fail. -/
structure Source where
  size : Nat
  readAt : (offset size : Nat) → Option (List UInt8)

/-! ## Shifts -/

def trailingZeros (n : Nat) : Nat := ((List.range 64).find? (fun i => n.testBit i)).getD 64

/-- The shifts that the offsets allow, the largest first. -/
def shifts (anchors : List Anchor) : List Nat :=
  let common := ((anchors.map Anchor.offset).filter (· ≠ 0)).foldl Nat.gcd 0
  let limit := if common = 0 then 17 else min (trailingZeros common) 17
  (List.range' 9 (max limit 9 - 8)).reverse

/-! ## One base -/

/-- A candidate for the base and what speaks for it. -/
structure Base where
  base : Nat
  confirmed : Nat
  tried : Nat
  deriving DecidableEq, Repr

section Confirm

variable (h : Hashes) (dev : Source) (base : Nat)

/-- The bytes a pointer points to from this base, where the device has them. -/
def probe (a : Anchor) : Option (List UInt8) :=
  let at_ := base + labelStartSize + a.offset
  if at_ ≥ word then none
  else if satAdd64 at_ a.psize > dev.size then none
  else dev.readAt at_ a.psize

def agrees (a : Anchor) (buf : List UInt8) : Bool :=
  verifyBlock h a.checksum buf a.endian a.cksum none a.encrypted = .ok

/-- How many pointers agree of how many that were read, `atMost` of them. -/
def confirmFrom (atMost : Nat) : Nat → Nat → List Anchor → Nat × Nat
  | ok, tried, [] => (ok, tried)
  | ok, tried, a :: rest =>
    if tried ≥ atMost then (ok, tried)
    else
      match probe dev base a with
      | none => confirmFrom atMost ok tried rest
      | some buf =>
        confirmFrom atMost (if agrees h a buf then ok + 1 else ok) (tried + 1) rest

def confirm (anchors : List Anchor) (atMost : Nat) : Nat × Nat :=
  confirmFrom h dev base atMost 0 0 anchors

end Confirm

/-! ## The search -/

structure Options where
  /-- Where a base may lie, as start and length. -/
  window : Option (Nat × Nat)
  /-- The shifts to step by; none for those that the pointers allow. -/
  shifts : List Nat
  /-- How many pointers are read of a base to begin with. -/
  screen : Nat
  /-- How many are read of a base that one of these agrees with. -/
  confirm : Nat
  keep : Nat

namespace Options

def defaults : Options := { window := none, shifts := [], screen := 4, confirm := 64, keep := 8 }

end Options

section Search

variable (h : Hashes) (dev : Source) (anchors : List Anchor) (opts : Options)

/-- The bases from `start` to `end_` that a step comes to. -/
def basesBetween (start end_ step : Nat) : List Nat :=
  List.range' start (divCeil (end_ - start) step) step

def candidates (shift : Nat) : List Nat :=
  let window := opts.window.getD (0, min (64 * 1024 * 1024) dev.size)
  let end_ := min (satAdd64 window.1 window.2) dev.size
  basesBetween window.1 end_ (shl64 1 shift)

/-- A base that one of the first pointers agrees with, with all that do. -/
def tryBase (at_ : Nat) : Option Base :=
  if (confirm h dev at_ anchors opts.screen).1 > 0 then
    let c := confirm h dev at_ anchors opts.confirm
    some { base := at_, confirmed := c.1, tried := c.2 }
  else none

/-- The shifts to step by. -/
def stepShifts : List Nat := if opts.shifts = [] then shifts anchors else opts.shifts

/-- What is found at the first step that finds anything. -/
def seenFrom : List Nat → List Base
  | [] => []
  | shift :: rest =>
    let seen := (candidates dev opts shift).filterMap (tryBase h dev anchors opts)
    if seen ≠ [] then seen else seenFrom rest

/-- Bases with more pointers come first, then those nearer the front. -/
def rank (b : Base) : ℕᵒᵈ ×ₗ ℕ := toLex (OrderDual.toDual b.confirmed, b.base)

/-- The bases that pointers agree with, the best first. -/
def search : List Base :=
  if anchors = [] then []
  else (sortByKey rank (seenFrom h dev anchors opts (stepShifts anchors opts))).take opts.keep

end Search

/-! ## Bases that a search comes to -/

theorem mem_basesBetween {start end_ step base : Nat} (hstep : 0 < step) :
    base ∈ basesBetween start end_ step ↔ ∃ i, base = start + i * step ∧ base < end_ := by
  rw [basesBetween, List.mem_range']
  constructor
  · rintro ⟨i, hi, rfl⟩
    rw [lt_divCeil_iff hstep] at hi
    exact ⟨i, by rw [Nat.mul_comm], by rw [Nat.mul_comm step]; omega⟩
  · rintro ⟨i, rfl, hlt⟩
    exact ⟨i, (lt_divCeil_iff hstep).mpr (by omega), by rw [Nat.mul_comm]⟩

theorem shl64_one_pos (shift : Nat) : 0 < shl64 1 shift := by
  have hlt : shift % 64 < 64 := Nat.mod_lt _ (by decide)
  have hpow : shl64 1 (shift % 64) = 2 ^ (shift % 64) := shl64_one hlt
  rw [shl64, Nat.mod_mod] at hpow
  rw [shl64, hpow]
  exact Nat.two_pow_pos _

section Search

variable (h : Hashes) (dev : Source) (anchors : List Anchor) (opts : Options)

/-- The pointers that confirm a base. -/
def confirmedAt (base : Nat) : Nat := (confirm h dev base anchors opts.confirm).1

/-- The pointers that agree with a base in the screening. -/
def screenedAt (base : Nat) : Nat := (confirm h dev base anchors opts.screen).1

/-- Some admissible step comes to the base. -/
def Reachable (base : Nat) : Prop :=
  ∃ shift ∈ stepShifts anchors opts, base ∈ candidates dev opts shift

/-- The base passes the screening at the first step at which any base does. -/
def Leading (base : Nat) : Prop :=
  ∃ before shift after, stepShifts anchors opts = before ++ shift :: after ∧
    (∀ s ∈ before, ∀ b ∈ candidates dev opts s, screenedAt h dev anchors opts b = 0) ∧
    base ∈ candidates dev opts shift ∧ 0 < screenedAt h dev anchors opts base

/-- No reachable base is confirmed by more pointers than the one that is reported first. -/
def ReportsBest : Prop :=
  ∀ base, Reachable dev anchors opts base → 0 < confirmedAt h dev anchors opts base →
    ∃ best, (search h dev anchors opts).head? = some best ∧
      confirmedAt h dev anchors opts base ≤ confirmedAt h dev anchors opts best.base

variable {h dev anchors opts}

theorem tryBase_eq_some {at_ : Nat} {b : Base} :
    tryBase h dev anchors opts at_ = some b ↔ 0 < screenedAt h dev anchors opts at_ ∧
      b = { base := at_, confirmed := confirmedAt h dev anchors opts at_,
            tried := (confirm h dev at_ anchors opts.confirm).2 } := by
  rw [tryBase]
  by_cases hok : (confirm h dev at_ anchors opts.screen).1 > 0
  · rw [if_pos hok, Option.some.injEq]
    exact ⟨fun heq => ⟨hok, heq.symm⟩, fun heq => heq.2.symm⟩
  · rw [if_neg hok]
    exact iff_of_false (by simp) (fun heq => hok heq.1)

/-- What one step finds. -/
theorem mem_filterMap_tryBase {shift : Nat} {b : Base} :
    b ∈ (candidates dev opts shift).filterMap (tryBase h dev anchors opts) ↔
      b.base ∈ candidates dev opts shift ∧ 0 < screenedAt h dev anchors opts b.base ∧
      b.confirmed = confirmedAt h dev anchors opts b.base ∧
      b.tried = (confirm h dev b.base anchors opts.confirm).2 := by
  rw [List.mem_filterMap]
  constructor
  · rintro ⟨at_, hmem, hsome⟩
    obtain ⟨hok, rfl⟩ := tryBase_eq_some.mp hsome
    exact ⟨hmem, hok, rfl, rfl⟩
  · rintro ⟨hmem, hok, hconfirmed, htried⟩
    refine ⟨b.base, hmem, tryBase_eq_some.mpr ⟨hok, ?_⟩⟩
    rw [← hconfirmed, ← htried]

/-- The first step that finds anything ends the search. -/
theorem mem_seenFrom {l : List Nat} {b : Base} :
    b ∈ seenFrom h dev anchors opts l ↔ ∃ before shift after, l = before ++ shift :: after ∧
      (∀ s ∈ before, (candidates dev opts s).filterMap (tryBase h dev anchors opts) = []) ∧
      b ∈ (candidates dev opts shift).filterMap (tryBase h dev anchors opts) := by
  induction l with
  | nil =>
    rw [seenFrom]
    exact iff_of_false List.not_mem_nil (by rintro ⟨before, shift, after, hl, -⟩; simp at hl)
  | cons shift rest ih =>
    rw [seenFrom]
    by_cases hnone : (candidates dev opts shift).filterMap (tryBase h dev anchors opts) = []
    · rw [if_neg (not_not.mpr hnone), ih]
      constructor
      · rintro ⟨before, s, after, rfl, hbefore, hb⟩
        exact ⟨shift :: before, s, after, rfl, List.forall_mem_cons.mpr ⟨hnone, hbefore⟩, hb⟩
      · rintro ⟨before, s, after, hl, hbefore, hb⟩
        cases before with
        | nil =>
          obtain ⟨rfl, -⟩ := List.cons.inj hl
          rw [hnone] at hb
          cases hb
        | cons first before =>
          obtain ⟨-, hl⟩ := List.cons.inj hl
          exact ⟨before, s, after, hl, (List.forall_mem_cons.mp hbefore).2, hb⟩
    · rw [if_pos hnone]
      constructor
      · intro hb
        exact ⟨[], shift, rest, rfl, fun _ hs => absurd hs List.not_mem_nil, hb⟩
      · rintro ⟨before, s, after, hl, hbefore, hb⟩
        cases before with
        | nil =>
          obtain ⟨rfl, -⟩ := List.cons.inj hl
          exact hb
        | cons first before =>
          obtain ⟨rfl, -⟩ := List.cons.inj hl
          exact absurd ((List.forall_mem_cons.mp hbefore).1) hnone

theorem filterMap_tryBase_eq_nil {shift : Nat} :
    (candidates dev opts shift).filterMap (tryBase h dev anchors opts) = [] ↔
      ∀ b ∈ candidates dev opts shift, screenedAt h dev anchors opts b = 0 := by
  rw [List.filterMap_eq_nil_iff]
  constructor
  · intro hnone b hb
    by_contra hok
    have hsome := tryBase_eq_some.mpr ⟨Nat.pos_of_ne_zero hok, rfl⟩
    rw [hnone b hb] at hsome
    cases hsome
  · intro hzero b hb
    rw [tryBase, if_neg]
    have hscreen : (confirm h dev b anchors opts.screen).1 = 0 := hzero b hb
    omega

/-- What is found are the leading bases, with what confirms them. -/
theorem mem_seenFrom_stepShifts {b : Base} :
    b ∈ seenFrom h dev anchors opts (stepShifts anchors opts) ↔
      Leading h dev anchors opts b.base ∧ b.confirmed = confirmedAt h dev anchors opts b.base ∧
      b.tried = (confirm h dev b.base anchors opts.confirm).2 := by
  rw [mem_seenFrom]
  simp only [filterMap_tryBase_eq_nil, mem_filterMap_tryBase]
  constructor
  · rintro ⟨before, shift, after, hl, hbefore, hmem, hok, hrest⟩
    exact ⟨⟨before, shift, after, hl, hbefore, hmem, hok⟩, hrest⟩
  · rintro ⟨⟨before, shift, after, hl, hbefore, hmem, hok⟩, hrest⟩
    exact ⟨before, shift, after, hl, hbefore, hmem, hok, hrest⟩

/-- Nothing that is found is confirmed by more pointers than what is reported first. -/
theorem head?_search {best : Base} (hbest : (search h dev anchors opts).head? = some best) :
    best ∈ seenFrom h dev anchors opts (stepShifts anchors opts) ∧
      ∀ b ∈ seenFrom h dev anchors opts (stepShifts anchors opts),
        b.confirmed ≤ best.confirmed := by
  rw [search] at hbest
  by_cases hempty : anchors = []
  · rw [if_pos hempty] at hbest
    cases hbest
  · rw [if_neg hempty] at hbest
    have hsorted := sortByKey_sorted rank (seenFrom h dev anchors opts (stepShifts anchors opts))
    have hmem : ∀ b, b ∈ sortByKey rank (seenFrom h dev anchors opts (stepShifts anchors opts)) ↔
        b ∈ seenFrom h dev anchors opts (stepShifts anchors opts) := fun b => mem_sortByKey
    generalize sortByKey rank (seenFrom h dev anchors opts (stepShifts anchors opts)) = l
      at hbest hsorted hmem
    cases l with
    | nil =>
      rw [List.take_nil] at hbest
      cases hbest
    | cons first rest =>
      cases hkeep : opts.keep with
      | zero =>
        rw [hkeep] at hbest
        cases hbest
      | succ keep =>
        rw [hkeep, List.take_succ_cons, List.head?_cons, Option.some.injEq] at hbest
        subst hbest
        refine ⟨(hmem first).mp List.mem_cons_self, ?_⟩
        intro b hb
        rcases List.mem_cons.mp ((hmem b).mpr hb) with rfl | hrest
        · exact Nat.le_refl _
        · have hle := List.rel_of_pairwise_cons hsorted hrest
          rcases Prod.Lex.toLex_le_toLex.mp hle with hlt | ⟨heq, -⟩
          · exact Nat.le_of_lt (OrderDual.toDual_lt_toDual.mp hlt)
          · exact Nat.le_of_eq (OrderDual.toDual_inj.mp heq).symm

theorem exists_head? {b : Base}
    (hb : b ∈ seenFrom h dev anchors opts (stepShifts anchors opts)) (hkeep : 0 < opts.keep) :
    ∃ best, (search h dev anchors opts).head? = some best := by
  have hanchors : anchors ≠ [] := by
    rintro rfl
    obtain ⟨⟨-, -, -, -, -, -, hok⟩, -⟩ := mem_seenFrom_stepShifts.mp hb
    exact absurd hok (Nat.lt_irrefl 0)
  rw [search, if_neg hanchors]
  have hmem : b ∈ sortByKey rank (seenFrom h dev anchors opts (stepShifts anchors opts)) :=
    mem_sortByKey.mpr hb
  generalize sortByKey rank (seenFrom h dev anchors opts (stepShifts anchors opts)) = l at hmem ⊢
  obtain ⟨keep, hk⟩ := Nat.exists_eq_succ_of_ne_zero (Nat.pos_iff_ne_zero.mp hkeep)
  cases l with
  | nil => cases hmem
  | cons first rest => exact ⟨first, by rw [hk, List.take_succ_cons, List.head?_cons]⟩

variable (h dev anchors opts)

/-- The search reports the best base just where one that leads is confirmed by as many pointers
as any that it could come to. -/
theorem search_best_iff : ReportsBest h dev anchors opts ↔
    ∀ base, Reachable dev anchors opts base → 0 < confirmedAt h dev anchors opts base →
      0 < opts.keep ∧ ∃ leading, Leading h dev anchors opts leading ∧
        confirmedAt h dev anchors opts base ≤ confirmedAt h dev anchors opts leading := by
  constructor
  · intro hbest base hreach hpos
    obtain ⟨best, hhead, hle⟩ := hbest base hreach hpos
    obtain ⟨hseen, -⟩ := head?_search hhead
    refine ⟨?_, best.base, (mem_seenFrom_stepShifts.mp hseen).1, hle⟩
    by_contra hkeep
    rw [search, Nat.eq_zero_of_not_pos hkeep, List.take_zero, ite_self] at hhead
    cases hhead
  · intro hleads base hreach hpos
    obtain ⟨hkeep, leading, hleading, hle⟩ := hleads base hreach hpos
    have hseen : { base := leading, confirmed := confirmedAt h dev anchors opts leading
                   tried := (confirm h dev leading anchors opts.confirm).2 : Base } ∈
        seenFrom h dev anchors opts (stepShifts anchors opts) :=
      mem_seenFrom_stepShifts.mpr ⟨hleading, rfl, rfl⟩
    obtain ⟨best, hhead⟩ := exists_head? hseen hkeep
    obtain ⟨hbest, hmost⟩ := head?_search hhead
    refine ⟨best, hhead, Nat.le_trans hle ?_⟩
    rw [← (mem_seenFrom_stepShifts.mp hbest).2.1]
    exact hmost _ hseen

end Search

/-! ## A base that is hidden -/

/-- A device of zeros but for one sector of ones. -/
def oneSector : Source :=
  { size := 8 * 1024 * 1024
    readAt := fun offset size =>
      some ((List.range size).map (fun i =>
        if labelStartSize + 1536 ≤ offset + i ∧ offset + i < labelStartSize + 2048 then 1 else 0)) }

/-- A pointer to a sector with this content. -/
def sectorAnchor (offset : Nat) (content : UInt8) : Anchor :=
  { offset, psize := 512, checksum := .fletcher2
    cksum := fletcher2 (List.replicate 512 content) .little
    endian := .little, encrypted := false }

/-- From 512 both pointers agree, from 0 only that to the zeros. -/
theorem fine_base_hidden :
    ¬ ∀ (h : Hashes) (dev : Source) (anchors : List Anchor) (opts : Options),
      ReportsBest h dev anchors opts := by
  intro hall
  let h : Hashes :=
    { sha256 := fun _ => [], sha512_256 := fun _ => [], blake3 := fun _ _ => []
      skein := fun _ _ => [], edonr := fun _ _ => [] }
  let anchors := [sectorAnchor 0 0, sectorAnchor 1024 1]
  let opts := { Options.defaults with window := some (0, 1024) }
  have hruns : stepShifts anchors opts = [10, 9] ∧
      512 ∈ candidates oneSector opts 9 ∧
      confirmedAt h oneSector anchors opts 512 = 2 ∧
      confirmedAt h oneSector anchors opts 0 = 1 ∧
      (search h oneSector anchors opts).head?.map Base.base = some 0 := by
    decide +kernel
  obtain ⟨hsteps, hmem, htwo, hone, hfirst⟩ := hruns
  have hreach : Reachable oneSector anchors opts 512 := by
    refine ⟨9, ?_, hmem⟩
    rw [hsteps]
    decide
  obtain ⟨best, hhead, hle⟩ := hall h oneSector anchors opts 512 hreach (by rw [htwo]; decide)
  rw [hhead, Option.map_some, Option.some.injEq] at hfirst
  rw [hfirst, htwo, hone] at hle
  omega

end Pointers
end Carve
end ZvolRescue
