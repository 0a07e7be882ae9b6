import ZvolRescue.Lib.Chunks
import ZvolRescue.Ondisk.Seal
import ZvolRescue.Scan.Anchors

/-!
# What a search looks at

A search looks at an offset of a window where its distance from the start of the window, less
whole chunks, is a multiple of the stride, and only at the first offset of a chunk where no
more than the largest slot is left of the device (`Covers`).  A search without a limit misses
no base exactly when it looks at every step of its windows (`find_complete_iff`).
-/

namespace ZvolRescue
namespace Scan

open Lib Ondisk Source

/-! ## Anchors by base -/

theorem mem_insertAnchor {a : Anchor} {b : Nat} {l : List (Nat × List Anchor)} :
    b ∈ (insertAnchor a l).map Prod.fst ↔ b = a.base ∨ b ∈ l.map Prod.fst := by
  induction l with
  | nil => simp [insertAnchor]
  | cons e l ih =>
    obtain ⟨base, anchors⟩ := e
    simp only [insertAnchor]
    split
    · simp
    · split
      · rename_i heq
        simp [heq]
      · simp only [List.map_cons, List.mem_cons, ih]
        tauto

theorem Found.mem_bases_add {f : Found} {a : Anchor} {b : Nat} :
    b ∈ (f.add a).bases ↔ b = a.base ∨ b ∈ f.bases := mem_insertAnchor

theorem Found.foldl_add (anchors : List Anchor) (f : Found) :
    (anchors.foldl Found.add f).examined = f.examined ∧
      ∀ b, b ∈ (anchors.foldl Found.add f).bases ↔
        (∃ a ∈ anchors, a.base = b) ∨ b ∈ f.bases := by
  induction anchors generalizing f with
  | nil => simp
  | cons a anchors ih =>
    obtain ⟨hexamined, hbases⟩ := ih (f.add a)
    refine ⟨hexamined, fun b => ?_⟩
    rw [List.foldl_cons, hbases, Found.mem_bases_add, List.exists_mem_cons_iff]
    constructor
    · rintro (h | rfl | h)
      · exact Or.inl (Or.inr h)
      · exact Or.inl (Or.inl rfl)
      · exact Or.inr h
    · rintro ((h | h) | h)
      · exact Or.inr (Or.inl h.symm)
      · exact Or.inl h
      · exact Or.inr (Or.inr h)

theorem mem_ranked {byBase : List (Nat × List Anchor)} {b : Nat} :
    (∃ z ∈ ranked byBase, z.base = b) ↔ b ∈ byBase.map Prod.fst := by
  constructor
  · rintro ⟨z, hz, rfl⟩
    obtain ⟨e, he, rfl⟩ := List.mem_map.mp (mem_sortByKey.mp hz)
    exact List.mem_map_of_mem he
  · intro h
    obtain ⟨e, he, rfl⟩ := List.mem_map.mp h
    exact ⟨_, mem_sortByKey.mpr (List.mem_map_of_mem he), rfl⟩

/-! ## Confirming a hit -/

section Confirm

variable (h : Hashes) (physical size : Nat)

theorem againstSizes_take (buf : List UInt8) (base : Nat) (sizes : List (Option Nat))
    (best : Option Anchor) :
    againstSizes h (buf.take maxSlot) physical base sizes best =
      againstSizes h buf physical base sizes best := by
  induction sizes generalizing best with
  | nil => rfl
  | cons psize sizes ih => simp only [againstSizes, confirmAgainstBase_take, ih]

theorem firstConfirmed_take (buf : List UInt8) (sizes : List (Option Nat)) :
    firstConfirmed h (buf.take maxSlot) physical sizes = firstConfirmed h buf physical sizes := by
  induction sizes with
  | nil => rfl
  | cons psize sizes ih => simp only [firstConfirmed, confirmSlotAt_take, ih]

/-- Only the first 8 KiB of a hit are looked at. -/
theorem confirm_take (buf : List UInt8) (known psizeHints : List Nat) :
    confirm h (buf.take maxSlot) physical size known psizeHints =
      confirm h buf physical size known psizeHints := by
  have hshifts : plausibleShifts (buf.take maxSlot) = plausibleShifts buf := by
    by_cases hlength : buf.length ≤ maxSlot
    · rw [List.take_of_length_le hlength]
    · exact plausibleShifts_take (by omega)
  simp only [confirm, againstSizes_take, firstConfirmed_take, hshifts]

theorem hasMagic_take (buf : List UInt8) : hasMagic (buf.take maxSlot) = hasMagic buf := by
  by_cases hlength : buf.length ≤ maxSlot
  · rw [List.take_of_length_le hlength]
  · have hword : ∀ e : Endian, e.u64At (buf.take maxSlot) 0 = e.u64At buf 0 :=
      fun e => u64At_take e (by decide) (by omega)
    simp only [hasMagic, Uberblock.order, hword]

variable {h} {physical} {buf : List UInt8}

theorem hasMagic_of_parse {ub : Uberblock} (hub : Uberblock.parse buf = .ok ub) :
    hasMagic buf = true := by
  rw [Uberblock.parse] at hub
  split at hub
  · cases hub
  · split at hub
    · cases hub
    · rename_i e he
      rw [hasMagic, he]
      rfl

theorem verifies_of_againstSizes {base : Nat} {sizes : List (Option Nat)} {best : Option Anchor}
    {a : Anchor} (hbest : ∀ b, best = some b → b.base = base ∧ Verifies h buf physical base)
    (ha : againstSizes h buf physical base sizes best = some a) :
    a.base = base ∧ Verifies h buf physical base := by
  induction sizes generalizing best with
  | nil => exact hbest a ha
  | cons psize sizes ih =>
    rw [againstSizes] at ha
    cases hknown : confirmAgainstBase h buf physical base psize with
    | none =>
      rw [hknown] at ha
      exact hbest a ha
    | some c =>
      simp only [hknown] at ha
      split at ha
      · cases ha
        exact verifies_of_known hknown
      · refine ih ?_ ha
        intro b hb
        cases hb
        exact verifies_of_known hknown

theorem mem_firstConfirmed {sizes : List (Option Nat)} {a : Anchor}
    (ha : a ∈ firstConfirmed h buf physical sizes) :
    ∃ psize thorough, a ∈ confirmSlotAt h buf physical psize thorough := by
  induction sizes with
  | nil => cases ha
  | cons psize sizes ih =>
    rw [firstConfirmed] at ha
    split at ha
    · rename_i hfound
      exact ⟨psize, false, hfound ▸ ha⟩
    · split at ha
      · rename_i hfound
        exact ⟨psize, true, hfound ▸ ha⟩
      · exact ih ha

theorem firstConfirmed_ne_nil {sizes : List (Option Nat)} {psize : Option Nat} {thorough : Bool}
    (hpsize : psize ∈ sizes) (hne : confirmSlotAt h buf physical psize thorough ≠ []) :
    firstConfirmed h buf physical sizes ≠ [] := by
  induction sizes with
  | nil => cases hpsize
  | cons first sizes ih =>
    rw [firstConfirmed]
    split
    · exact List.cons_ne_nil _ _
    · rename_i hquick
      split
      · exact List.cons_ne_nil _ _
      · rename_i hthorough
        rcases List.mem_cons.mp hpsize with rfl | hrest
        · cases thorough with
          | false => exact absurd hquick hne
          | true => exact absurd hthorough hne
        · exact ih hrest

end Confirm

/-! ## What there is to find -/

section Complete

variable (h : Hashes) (dev : Medium) (opts : Search)

/-- The device from `physical` on. -/
def rest (physical : Nat) : List UInt8 := dev.slice physical (dev.size - physical)

/-- A slot at `physical` is confirmed for this base, with some size the search assumes. -/
def Confirmed (physical base : Nat) : Prop :=
  ∃ psize ∈ none :: (opts.psizeHintsFor dev.size).map some, ∃ thorough,
    ∃ a ∈ confirmSlotAt h (rest dev physical) physical psize thorough, a.base = base

/-- No slot on the device verifies for two bases. -/
def OneBase : Prop :=
  ∀ physical b b', Verifies h (rest dev physical) physical b →
    Verifies h (rest dev physical) physical b' → b = b'

/-- The bases of the slots that were looked at are known. -/
def Settled (f : Found) : Prop :=
  ∀ p ∈ f.examined, ∀ b, Confirmed h dev opts p b → b ∈ f.bases

variable {h dev opts}

/-- A confirmed base is known already or is that of an anchor confirmed now. -/
theorem OneBase.confirm (hone : OneBase h dev) {p b : Nat} (hb : Confirmed h dev opts p b)
    (known : List Nat) :
    b ∈ known ∨ ∃ a ∈ confirm h (rest dev p) p dev.size known (opts.psizeHintsFor dev.size),
      a.base = b := by
  obtain ⟨psize, hpsize, thorough, a, ha, rfl⟩ := hb
  have hverifies := (verifies_of_mem ha).1
  rw [Scan.confirm]
  split
  · rename_i c hc
    left
    obtain ⟨base, hbase, hsizes⟩ := List.exists_of_findSome?_eq_some hc
    obtain ⟨-, hknown⟩ := verifies_of_againstSizes (by simp) hsizes
    rwa [hone p _ _ hverifies hknown]
  · right
    have hfits : plausibleShifts (rest dev p) ≠ [] := by
      obtain ⟨-, shift, hshift, -⟩ := hverifies
      exact List.ne_nil_of_mem hshift
    rw [if_neg hfits]
    obtain ⟨c, hc⟩ := List.exists_mem_of_ne_nil _
      (firstConfirmed_ne_nil hpsize (List.ne_nil_of_mem ha))
    obtain ⟨psize', thorough', hc'⟩ := mem_firstConfirmed hc
    exact ⟨c, hc, hone p _ _ (verifies_of_mem hc').1 hverifies⟩

theorem examine_examined (p : Nat) (buf : List UInt8) (f : Found) :
    (examine h dev opts p buf f).examined = f.examined ++ [p] := by
  rw [examine]
  split
  · rw [(Found.foldl_add _ _).1]
  · rfl

variable (h dev opts) in
/-- What looking at an offset of the device does not end. -/
def Kept (I : Found → Prop) : Prop :=
  ∀ f p buf, buf.take maxSlot = (rest dev p).take maxSlot → I f → I (examine h dev opts p buf f)

theorem examine_rest {f : Found} {p : Nat} {buf : List UInt8}
    (hbuf : buf.take maxSlot = (rest dev p).take maxSlot) :
    examine h dev opts p buf f = examine h dev opts p (rest dev p) f := by
  have hmagic : hasMagic buf = hasMagic (rest dev p) := by
    rw [← hasMagic_take, hbuf, hasMagic_take]
  have hconfirm : ∀ known hints,
      Scan.confirm h buf p dev.size known hints =
        Scan.confirm h (rest dev p) p dev.size known hints := by
    intro known hints
    rw [← confirm_take, hbuf, confirm_take]
  simp only [examine, hmagic, hconfirm]

theorem OneBase.kept (hone : OneBase h dev) : Kept h dev opts (Settled h dev opts) := by
  intro f p buf hbuf hf q hq b hb
  rw [examine_examined, List.mem_append, List.mem_singleton] at hq
  rw [examine_rest hbuf, Scan.examine]
  split
  · rw [(Found.foldl_add _ _).2]
    rcases hq with hq | rfl
    · exact Or.inr (hf q hq b hb)
    · exact (hone.confirm hb f.bases).symm
  · rename_i hno
    rcases hq with hq | rfl
    · exact hf q hq b hb
    · obtain ⟨_, _, _, a, ha, _⟩ := hb
      obtain ⟨ub, hub⟩ := (verifies_of_mem ha).2
      exact absurd (hasMagic_of_parse hub) hno

/-! ## The offsets of a chunk -/

variable (dev opts)

/-- The search looks at `p` in the chunk at `pos`, from `off` on. -/
def InChunk (end_ pos off p : Nat) : Prop :=
  ∃ j, p = pos + off + j * opts.stride ∧ off + j * opts.stride < lastOf (wantAt dev pos) ∧ p < end_

variable {dev opts}

/-- What is left of the chunk at an offset begins like the rest of the device there. -/
theorem drop_chunk {pos off : Nat} (hoff : off < lastOf (wantAt dev pos)) (hpos : pos < dev.size) :
    ((dev.slice pos (wantAt dev pos)).drop off).take maxSlot =
      (rest dev (pos + off)).take maxSlot := by
  rw [dev.slice_drop, rest]
  by_cases hlong : maxSlot ≤ wantAt dev pos - off
  · have hrest : maxSlot ≤ dev.size - (pos + off) := by
      have hwant : wantAt dev pos ≤ dev.size - pos := Nat.min_le_right _ _
      omega
    rw [dev.slice_take hlong, dev.slice_take hrest]
  · have hshort : wantAt dev pos - off = dev.size - (pos + off) := by
      rw [lastOf] at hoff
      split at hoff
      · omega
      · have hwant : wantAt dev pos = min (chunkSize + maxSlot) (dev.size - pos) := rfl
        have hpositive : 0 < chunkSize := by decide
        omega
    rw [hshort]

variable {end_ pos : Nat}

theorem inChunk_step {off p : Nat} (hoff : off < lastOf (wantAt dev pos))
    (hin : pos + off < end_) :
    InChunk dev opts end_ pos off p ↔
      p = pos + off ∨ InChunk dev opts end_ pos (off + opts.stride) p := by
  constructor
  · rintro ⟨j, rfl, hlast, hend⟩
    cases j with
    | zero => exact Or.inl (by rw [Nat.zero_mul, Nat.add_zero])
    | succ j =>
      rw [Nat.succ_mul] at hlast hend ⊢
      exact Or.inr ⟨j, by omega, by omega, hend⟩
  · rintro (rfl | ⟨j, rfl, hlast, hend⟩)
    · exact ⟨0, by rw [Nat.zero_mul, Nat.add_zero], by rwa [Nat.zero_mul, Nat.add_zero], hin⟩
    · refine ⟨j + 1, ?_, ?_, hend⟩
      · rw [Nat.succ_mul]
        omega
      · rw [Nat.succ_mul]
        omega

theorem not_inChunk {off p : Nat} (hout : ¬ (off < lastOf (wantAt dev pos) ∧ pos + off < end_)) :
    ¬ InChunk dev opts end_ pos off p := by
  rintro ⟨j, rfl, hlast, hend⟩
  exact hout ⟨by omega, by omega⟩

variable (hlimit : opts.maxAnchors = 0)
include hlimit

theorem not_reached (buf : List UInt8) (f : Found) : ¬ reached opts buf f :=
  fun hreached => hreached.2.1 hlimit

/-- What a loop over the offsets of a chunk does, if it comes to an end. -/
theorem scanOffsets_spec (hpos : pos < dev.size) {stopped : Bool} {f' : Found} :
    ∀ fuel off f, scanOffsets h dev opts (dev.slice pos (wantAt dev pos)) pos end_ fuel off f =
        some (stopped, f') →
      stopped = false ∧
        (∀ p, p ∈ f'.examined ↔ p ∈ f.examined ∨ InChunk dev opts end_ pos off p) ∧
        (∀ I, Kept h dev opts I → I f → I f') ∧
        (opts.stride = 0 → ¬ (off < lastOf (wantAt dev pos) ∧ pos + off < end_)) := by
  intro fuel
  induction fuel with
  | zero =>
    intro off f hrun
    cases hrun
  | succ fuel ih =>
    intro off f hrun
    rw [scanOffsets] at hrun
    by_cases hin : off < lastOf (wantAt dev pos) ∧ pos + off < end_
    · simp only [if_pos hin, if_neg (not_reached hlimit _ _)] at hrun
      obtain ⟨hstopped, hexamined, hkept, hstride⟩ := ih _ _ hrun
      refine ⟨hstopped, ?_, ?_, ?_⟩
      · intro p
        rw [hexamined, examine_examined, List.mem_append, List.mem_singleton,
          inChunk_step hin.1 hin.2, or_assoc]
      · intro I hI hf
        exact hkept I hI (hI _ _ _ (drop_chunk hin.1 hpos) hf)
      · intro hzero
        have hsame := hstride hzero
        rw [hzero, Nat.add_zero] at hsame
        exact absurd hin hsame
    · rw [if_neg hin] at hrun
      cases hrun
      refine ⟨rfl, ?_, fun _ _ hf => hf, fun _ => hin⟩
      intro p
      rw [or_iff_left (not_inChunk hin)]

/-- With a stride the loop comes to an end. -/
theorem scanOffsets_isSome (hstride : 0 < opts.stride) (chunk : List UInt8) :
    ∀ fuel off f, lastOf (wantAt dev pos) ≤ off + fuel →
      ∃ r, scanOffsets h dev opts chunk pos end_ (fuel + 1) off f = some r := by
  intro fuel
  induction fuel with
  | zero =>
    intro off f hfuel
    rw [scanOffsets, if_neg (by omega)]
    exact ⟨_, rfl⟩
  | succ fuel ih =>
    intro off f hfuel
    rw [scanOffsets]
    by_cases hin : off < lastOf (wantAt dev pos) ∧ pos + off < end_
    · simp only [if_pos hin, if_neg (not_reached hlimit _ _)]
      exact ih _ _ (by omega)
    · exact ⟨_, if_neg hin⟩

/-! ## The chunks of a window -/

omit hlimit in
theorem wantAt_le (pos : Nat) (hpos : pos ≤ dev.size) : pos + wantAt dev pos ≤ dev.size := by
  have hwant : wantAt dev pos ≤ dev.size - pos := Nat.min_le_right _ _
  omega

omit hlimit in
theorem lastOf_le (pos : Nat) : lastOf (wantAt dev pos) ≤ dev.size + 1 := by
  have hwant : wantAt dev pos ≤ dev.size - pos := Nat.min_le_right _ _
  rw [lastOf]
  split <;> omega

variable (dev opts) in
/-- The search looks at `p` in a chunk of the window from `pos` on. -/
def InWindow (end_ pos p : Nat) : Prop :=
  ∃ i, pos + i * chunkSize < end_ ∧ InChunk dev opts end_ (pos + i * chunkSize) 0 p

omit hlimit in
theorem inWindow_step {p : Nat} (hpos : pos < end_) :
    InWindow dev opts end_ pos p ↔
      InChunk dev opts end_ pos 0 p ∨ InWindow dev opts end_ (pos + chunkSize) p := by
  constructor
  · rintro ⟨i, hi, hin⟩
    cases i with
    | zero => exact Or.inl (by rwa [Nat.zero_mul, Nat.add_zero] at hin)
    | succ i =>
      rw [Nat.succ_mul, Nat.add_comm (i * chunkSize), ← Nat.add_assoc] at hi hin
      exact Or.inr ⟨i, hi, hin⟩
  · rintro (hin | ⟨i, hi, hin⟩)
    · exact ⟨0, by rwa [Nat.zero_mul, Nat.add_zero], by rwa [Nat.zero_mul, Nat.add_zero]⟩
    · refine ⟨i + 1, ?_, ?_⟩
      · rwa [Nat.succ_mul, Nat.add_comm (i * chunkSize), ← Nat.add_assoc]
      · rwa [Nat.succ_mul, Nat.add_comm (i * chunkSize), ← Nat.add_assoc]

theorem scanWindow_spec (fuel : Nat) (hend : end_ ≤ dev.size) {stopped : Bool} {f' : Found} :
    ∀ rounds pos f, scanWindow h dev opts fuel end_ rounds pos f = .ok (some (stopped, f')) →
      stopped = false ∧
        (∀ p, p ∈ f'.examined ↔ p ∈ f.examined ∨ InWindow dev opts end_ pos p) ∧
        (∀ I, Kept h dev opts I → I f → I f') ∧
        (opts.stride = 0 → ¬ pos < end_) := by
  intro rounds
  induction rounds with
  | zero =>
    intro pos f hrun
    cases hrun
  | succ rounds ih =>
    intro pos f hrun
    rw [scanWindow] at hrun
    by_cases hpos : pos < end_
    · have hsize : pos < dev.size := by omega
      rw [if_pos hpos, dev.readAt_of_le (wantAt_le pos hsize.le), ok_bind] at hrun
      cases hscan : scanOffsets h dev opts (dev.slice pos (wantAt dev pos)) pos end_ fuel 0 f with
      | none =>
        rw [hscan] at hrun
        cases hrun
      | some r =>
        obtain ⟨stopped₁, f₁⟩ := r
        obtain ⟨hstopped₁, hexamined₁, hkept₁, hstride₁⟩ := scanOffsets_spec hlimit hsize _ _ _ hscan
        rw [hscan, hstopped₁] at hrun
        obtain ⟨hstopped, hexamined, hkept, hstride⟩ := ih _ _ hrun
        refine ⟨hstopped, ?_, fun I hI hf => hkept I hI (hkept₁ I hI hf), ?_⟩
        · intro p
          rw [hexamined, hexamined₁, inWindow_step hpos, or_assoc]
        · intro hzero
          have hpositive : 0 < lastOf (wantAt dev pos) := by
            rw [lastOf]
            split <;> omega
          exact absurd ⟨hpositive, hpos⟩ (hstride₁ hzero)
    · rw [if_neg hpos] at hrun
      cases hrun
      refine ⟨rfl, ?_, fun _ _ hf => hf, fun _ => hpos⟩
      intro p
      rw [or_iff_left]
      rintro ⟨i, hi, -⟩
      omega

theorem scanWindow_isSome (hend : end_ ≤ dev.size) {fuel : Nat} (hfuel : dev.size + 1 ≤ fuel)
    (hstride : 0 < opts.stride) :
    ∀ rounds pos f, end_ ≤ pos + rounds →
      ∃ f', scanWindow h dev opts (fuel + 1) end_ (rounds + 1) pos f = .ok (some (false, f')) := by
  intro rounds
  induction rounds with
  | zero =>
    intro pos f hrounds
    rw [scanWindow, if_neg (by omega)]
    exact ⟨_, rfl⟩
  | succ rounds ih =>
    intro pos f hrounds
    rw [scanWindow]
    by_cases hpos : pos < end_
    · have hsize : pos < dev.size := by omega
      have hlast : lastOf (wantAt dev pos) ≤ 0 + fuel := (lastOf_le pos).trans (by omega)
      obtain ⟨⟨stopped, f₁⟩, hscan⟩ : ∃ r, scanOffsets h dev opts (dev.slice pos (wantAt dev pos))
          pos end_ (fuel + 1) 0 f = some r := scanOffsets_isSome hlimit hstride _ fuel 0 f hlast
      have hstopped := (scanOffsets_spec hlimit hsize _ _ _ hscan).1
      have hchunk : 0 < chunkSize := by decide
      rw [if_pos hpos, dev.readAt_of_le (wantAt_le pos hsize.le), ok_bind, hscan, hstopped]
      exact ih _ _ (by omega)
    · exact ⟨_, if_neg hpos⟩

/-! ## The windows -/

omit hlimit in
theorem windowEnd_le (w : Nat × Nat) : windowEnd dev w ≤ dev.size := Nat.min_le_right _ _

theorem scanWindows_spec {fuel : Nat} {f' : Found} :
    ∀ ws f, scanWindows h dev opts fuel ws f = .ok (some f') →
      (∀ p, p ∈ f'.examined ↔ p ∈ f.examined ∨
        ∃ w ∈ ws, InWindow dev opts (windowEnd dev w) w.1 p) ∧
      (∀ I, Kept h dev opts I → I f → I f') ∧
      (opts.stride = 0 → ∀ w ∈ ws, ¬ w.1 < windowEnd dev w) := by
  intro ws
  induction ws with
  | nil =>
    intro f hrun
    cases hrun
    simp
  | cons w ws ih =>
    intro f hrun
    rw [scanWindows] at hrun
    cases hwindow : scanWindow h dev opts fuel (windowEnd dev w) fuel w.1 f with
    | error e =>
      rw [hwindow] at hrun
      cases hrun
    | ok r =>
      rw [hwindow, ok_bind] at hrun
      cases r with
      | none => cases hrun
      | some r =>
        obtain ⟨stopped, f₁⟩ := r
        obtain ⟨hstopped, hexamined₁, hkept₁, hstride₁⟩ :=
          scanWindow_spec hlimit fuel (windowEnd_le w) _ _ _ hwindow
        rw [hstopped] at hrun
        obtain ⟨hexamined, hkept, hstride⟩ := ih _ hrun
        refine ⟨?_, fun I hI hf => hkept I hI (hkept₁ I hI hf), ?_⟩
        · intro p
          rw [hexamined, hexamined₁, List.exists_mem_cons_iff, or_assoc]
        · intro hzero
          exact List.forall_mem_cons.mpr ⟨hstride₁ hzero, hstride hzero⟩

theorem scanWindows_isSome {fuel : Nat} (hfuel : dev.size + 1 ≤ fuel) :
    ∀ ws f, (opts.stride = 0 → ∀ w ∈ ws, ¬ w.1 < windowEnd dev w) →
      ∃ f', scanWindows h dev opts (fuel + 1) ws f = .ok (some f') := by
  intro ws
  induction ws with
  | nil => exact fun f _ => ⟨f, rfl⟩
  | cons w ws ih =>
    intro f hempty
    have hend : windowEnd dev w ≤ dev.size := windowEnd_le w
    obtain ⟨f₁, hwindow⟩ : ∃ f₁, scanWindow h dev opts (fuel + 1) (windowEnd dev w) (fuel + 1) w.1 f =
        .ok (some (false, f₁)) := by
      by_cases hin : w.1 < windowEnd dev w
      · have hstride : 0 < opts.stride := by
          rw [Nat.pos_iff_ne_zero]
          intro hzero
          exact hempty hzero w List.mem_cons_self hin
        exact scanWindow_isSome hlimit hend hfuel hstride _ _ _ (by omega)
      · rw [scanWindow, if_neg hin]
        exact ⟨f, rfl⟩
    rw [scanWindows, hwindow, ok_bind]
    exact ih f₁ (fun hzero w' hw' => hempty hzero w' (List.mem_cons_of_mem _ hw'))

variable (dev opts) in
/-- A search of this window looks at `p`. -/
structure Covers (w : Nat × Nat) (p : Nat) : Prop where
  sum : w.1 + w.2 < word
  start : w.1 ≤ p
  stop : p < w.1 + w.2
  size : p < dev.size
  step : (p - w.1) % chunkSize % opts.stride = 0
  tail : (p - w.1) % chunkSize = 0 ∨ p + maxSlot < dev.size

omit hlimit in
theorem lastOf_wantAt {pos off : Nat} (hoff : off < chunkSize) :
    off < lastOf (wantAt dev pos) ↔ off = 0 ∨ pos + off + maxSlot < dev.size := by
  have hslot : maxSlot = 8192 := rfl
  have hchunk : chunkSize = 4194304 := rfl
  rw [lastOf, wantAt]
  split <;> omega

omit hlimit in
theorem lastOf_le_chunk (pos : Nat) : lastOf (wantAt dev pos) ≤ chunkSize := by
  have hslot : maxSlot = 8192 := rfl
  have hchunk : chunkSize = 4194304 := rfl
  rw [lastOf, wantAt]
  split <;> omega

omit hlimit in
theorem lt_windowEnd_iff {w : Nat × Nat} (hw : w.1 < word ∧ w.2 < word) {p : Nat}
    (hp : w.1 ≤ p) :
    p < windowEnd dev w ↔ w.1 + w.2 < word ∧ p < w.1 + w.2 ∧ p < dev.size := by
  rw [windowEnd, Nat.lt_min]
  by_cases hsum : w.1 + w.2 < word
  · rw [add64_of_lt hsum]
    exact ⟨fun h => ⟨hsum, h⟩, fun h => h.2⟩
  · have hwrap : add64 w.1 w.2 = w.1 + w.2 - word := by
      rw [add64, Nat.mod_eq_sub_mod (by omega), Nat.mod_eq_of_lt (by omega)]
    rw [hwrap]
    omega

omit hlimit in
theorem covers_iff {w : Nat × Nat} (hw : w.1 < word ∧ w.2 < word) {p : Nat} :
    InWindow dev opts (windowEnd dev w) w.1 p ↔ Covers dev opts w p := by
  constructor
  · rintro ⟨i, hi, j, rfl, hlast, hp⟩
    rw [Nat.zero_add] at hlast
    rw [Nat.add_zero] at hp ⊢
    have hchunk := Nat.lt_of_lt_of_le hlast (lastOf_le_chunk _)
    have hstart : w.1 ≤ w.1 + i * chunkSize + j * opts.stride :=
      Nat.le_trans (Nat.le_add_right _ _) (Nat.le_add_right _ _)
    obtain ⟨hsum, hstop, hsize⟩ := (lt_windowEnd_iff hw hstart).mp hp
    refine ⟨hsum, hstart, hstop, hsize, ?_, ?_⟩
    · rw [dist_mod hchunk, Nat.mul_mod_left]
    · rw [dist_mod hchunk]
      exact (lastOf_wantAt hchunk).mp hlast
  · rintro ⟨hsum, hstart, hstop, hsize, hstep, htail⟩
    have hp : p < windowEnd dev w := (lt_windowEnd_iff hw hstart).mpr ⟨hsum, hstop, hsize⟩
    have heq := eq_chunk_add chunkSize hstart
    have hchunk : (p - w.1) % chunkSize < chunkSize := Nat.mod_lt _ (by decide)
    have hoff : (p - w.1) % chunkSize / opts.stride * opts.stride = (p - w.1) % chunkSize :=
      Nat.div_mul_cancel (Nat.dvd_of_mod_eq_zero hstep)
    generalize (p - w.1) % chunkSize = off at *
    generalize (p - w.1) / chunkSize = i at *
    refine ⟨i, ?_, off / opts.stride, ?_, ?_, hp⟩
    · exact Nat.lt_of_le_of_lt (by rw [heq]; exact Nat.le_add_right _ _) hp
    · rw [hoff, Nat.add_zero]
      exact heq
    · rw [Nat.zero_add, hoff, lastOf_wantAt hchunk, ← heq]
      exact htail

end Complete

/-! ## Completeness -/

section Theorem

variable (h : Hashes) (dev : Medium) (opts : Search)

/-- A step of a window at which an uberblock slot lies wholly on the device. -/
def Step (p : Nat) : Prop :=
  ∃ w ∈ opts.windowsFor dev.size, ∃ k, p = w.1 + k * opts.stride ∧ p < w.1 + w.2 ∧
    p + 2 ^ Uberblock.shift ≤ dev.size

/-- The search comes to an end, looks at every step and reports every base that is confirmed
at one. -/
def Complete : Prop :=
  ∃ fuel found, search h dev opts fuel = .ok (some found) ∧
    ∀ p, Step dev opts p → p ∈ found.examined ∧
      ∀ b, Confirmed h dev opts p b → ∃ z ∈ ranked found.byBase, z.base = b

/-- Every step is covered by some window; without a stride no window has a byte. -/
structure Reaches : Prop where
  stride : opts.stride = 0 → ∀ w ∈ opts.windowsFor dev.size, ¬ w.1 < windowEnd dev w
  covers : ∀ p, Step dev opts p → ∃ w ∈ opts.windowsFor dev.size, Covers dev opts w p

variable {h dev opts}

theorem windowsFor_lt {w : Nat × Nat} (hw : w ∈ opts.windowsFor dev.size) :
    w.1 < word ∧ w.2 < word := by
  have hsize := dev.size_lt
  have hword : (2 : Nat) ^ 63 < word := by decide
  rw [Search.windowsFor] at hw
  split at hw
  · exact opts.windows_lt w hw
  · simp only at hw
    split at hw
    · rw [List.mem_singleton.mp hw]
      exact ⟨by omega, by omega⟩
    · rcases List.mem_cons.mp hw with rfl | hw
      · exact ⟨by omega, by omega⟩
      · rw [List.mem_singleton.mp hw]
        exact ⟨by omega, by omega⟩

theorem search_eq (hallowed : opts.surfaceScanOnDevice = true ∨ dev.device = false) (fuel : Nat) :
    search h dev opts fuel =
      scanWindows h dev opts fuel (opts.windowsFor dev.size) Found.none := by
  rw [search]
  rcases hallowed with hallowed | himage
  · rw [hallowed]
    rfl
  · have hnone : surfaceScanRefused dev = none := by
      rw [surfaceScanRefused, himage]
      rfl
    rw [hnone, ite_self]

/-- The offsets that a search without a limit looks at. -/
theorem mem_examined_iff (hallowed : opts.surfaceScanOnDevice = true ∨ dev.device = false)
    (hlimit : opts.maxAnchors = 0) {fuel : Nat} {found : Found}
    (hsearch : search h dev opts fuel = .ok (some found)) (p : Nat) :
    p ∈ found.examined ↔ ∃ w ∈ opts.windowsFor dev.size, Covers dev opts w p := by
  rw [search_eq hallowed] at hsearch
  rw [(scanWindows_spec hlimit _ _ hsearch).1, Found.none]
  constructor
  · rintro (hp | ⟨w, hw, hin⟩)
    · cases hp
    · exact ⟨w, hw, (covers_iff (windowsFor_lt hw)).mp hin⟩
  · rintro ⟨w, hw, hcovers⟩
    exact Or.inr ⟨w, hw, (covers_iff (windowsFor_lt hw)).mpr hcovers⟩

/-- A search comes to an end within as many steps of each loop as the device has bytes. -/
theorem search_isSome (hallowed : opts.surfaceScanOnDevice = true ∨ dev.device = false)
    (hlimit : opts.maxAnchors = 0)
    (hstride : opts.stride = 0 → ∀ w ∈ opts.windowsFor dev.size, ¬ w.1 < windowEnd dev w) :
    ∃ found, search h dev opts (dev.size + 2) = .ok (some found) := by
  rw [search_eq hallowed]
  exact scanWindows_isSome hlimit (Nat.le_refl (dev.size + 1)) _ _ hstride

/-- A search that meets no magic finds no base. -/
theorem search_quiet (hallowed : opts.surfaceScanOnDevice = true ∨ dev.device = false)
    (hlimit : opts.maxAnchors = 0)
    (hquiet : ∀ p, (∃ w ∈ opts.windowsFor dev.size, Covers dev opts w p) →
      hasMagic (rest dev p) = false)
    {fuel : Nat} {found : Found} (hsearch : search h dev opts fuel = .ok (some found)) :
    found.byBase = [] := by
  have hexamined : ∀ p ∈ found.examined, hasMagic (rest dev p) = false :=
    fun p hp => hquiet p ((mem_examined_iff hallowed hlimit hsearch p).mp hp)
  let I : Found → Prop := fun f =>
    (∀ p ∈ f.examined, hasMagic (rest dev p) = false) → f.byBase = []
  have hI : Kept h dev opts I := by
    intro f p buf hbuf hf hnone
    rw [examine_examined] at hnone
    have hp := hnone p (List.mem_append_right _ List.mem_cons_self)
    have hold := hf (fun q hq => hnone q (List.mem_append_left _ hq))
    rw [examine_rest hbuf, examine, hp]
    exact hold
  rw [search_eq hallowed] at hsearch
  exact (scanWindows_spec hlimit _ _ hsearch).2.1 I hI (fun _ => rfl) hexamined

end Theorem

/-! ## Images of zeros, and a slot in the last 8 KiB -/

theorem u64At_zeros (dev : Medium) (e : Endian) {p n off : Nat} {w : UInt64}
    (hzero : ∀ i, i < 8 → dev.byte (p + off + i) = 0)
    (hw : e.u64At (dev.slice p n) off = some w) : w = 0 := by
  rw [Endian.u64At, dev.slice_length] at hw
  split at hw
  · rename_i hroom
    have hbytes : dev.slice (p + off) 8 = List.replicate 8 0 := by
      refine List.eq_replicate_iff.mpr ⟨dev.slice_length _ _, ?_⟩
      intro b hb
      obtain ⟨i, hi, rfl⟩ := List.mem_iff_getElem.mp hb
      have hget := dev.slice_getElem? (p + off) 8 i
      rw [dev.slice_length] at hi
      rw [List.getElem?_eq_getElem (by rwa [dev.slice_length]), if_pos hi, hzero i hi] at hget
      exact Option.some.inj hget
    rw [dev.slice_drop, dev.slice_take (by omega), hbytes] at hw
    cases hw
    cases e <;> decide
  · cases hw

theorem hasMagic_zeros (dev : Medium) {p : Nat} (hzero : ∀ i, i < 8 → dev.byte (p + i) = 0) :
    hasMagic (rest dev p) = false := by
  have hword : ∀ e : Endian, ¬ e.u64At (rest dev p) 0 = some Uberblock.magic := fun e hw =>
    absurd (u64At_zeros dev e hzero hw) (by decide)
  rw [hasMagic, Uberblock.order, if_neg (hword _), if_neg (hword _)]
  rfl

def zeros : Medium := { size := 20000, byte := fun _ => 0, device := false, size_lt := by decide }

/-- A window that ends well before the image does. -/
def firstPage : Search :=
  { Search.default with windows := [(0, 4096)], windows_lt := by decide }

theorem zeros_oneBase (h : Hashes) : OneBase h zeros := by
  intro p b b' hb
  obtain ⟨-, shift, hshift, -⟩ := hb
  have hfits := (List.mem_filter.mp hshift).2
  have hword : ∀ e : Endian, ¬ e.u64At (rest zeros p) (2 ^ shift - eckSize) = some zecMagic :=
    fun e hw => absurd (u64At_zeros zeros e (fun _ _ => rfl) hw) (by decide)
  rw [plausibleShift] at hfits
  split at hfits
  · cases hfits
  · simp [hword] at hfits

theorem firstPage_reaches : Reaches zeros firstPage := by
  refine ⟨fun hzero => absurd hzero (by decide), ?_⟩
  rintro p ⟨w, hw, k, rfl, hstop, -⟩
  obtain rfl : w = (0, 4096) := List.mem_singleton.mp hw
  have hstride : firstPage.stride = 512 := rfl
  have hchunk : chunkSize = 4194304 := rfl
  have hslot : maxSlot = 8192 := rfl
  have hsize : zeros.size = 20000 := rfl
  have hword : (4096 : Nat) < word := by decide
  refine ⟨(0, 4096), hw, ?_, ?_, hstop, ?_, ?_, ?_⟩
  · exact hword
  · exact Nat.zero_le _
  · omega
  · rw [hstride, hchunk]
    omega
  · right
    omega

/-- A digest that is the verifier itself: what is sealed verifies for one offset only. -/
def verifierHashes : Hashes :=
  { sha256 := fun data => data.drop (data.length - 32)
    sha512_256 := fun _ => []
    blake3 := fun _ _ => []
    skein := fun _ _ => []
    edonr := fun _ _ => [] }

section LastSlot

variable (h : Hashes)

/-- A slot of the smallest size with the uberblock of no transaction group. -/
def plainSlot : List UInt8 := Endian.little.bytes Uberblock.magic ++ List.replicate 1016 0

/-- That slot as the first of the ring of the first label. -/
def lastSlot : List UInt8 := sealLabel h plainSlot uberblockRingOffset

/-- An image with nothing but that slot, in its last KiB. -/
def lastSlotImage : Medium :=
  { size := uberblockRingOffset + 1024
    byte := fun i =>
      if i < uberblockRingOffset then 0 else (lastSlot h).getD (i - uberblockRingOffset) 0
    device := false
    size_lt := by decide }

theorem plainSlot_length : plainSlot.length = 1024 := by
  rw [plainSlot, List.length_append, Endian.bytes_length, List.length_replicate]

theorem eckSize_le_plainSlot : eckSize ≤ plainSlot.length := by
  rw [plainSlot_length]
  decide

theorem lastSlot_length : (lastSlot h).length = 1024 := by
  rw [lastSlot, sealLabel, sealEmbedded_length h eckSize_le_plainSlot, plainSlot_length]

theorem rest_lastSlotImage : rest (lastSlotImage h) uberblockRingOffset = lastSlot h := by
  apply List.ext_getElem?
  intro i
  have hsize : (lastSlotImage h).size - uberblockRingOffset = 1024 := Nat.add_sub_cancel_left _ _
  rw [rest, hsize, (lastSlotImage h).slice_getElem?]
  by_cases hi : i < 1024
  · have hbyte : (lastSlotImage h).byte (uberblockRingOffset + i) = (lastSlot h).getD i 0 := by
      simp only [lastSlotImage]
      rw [if_neg (by omega), Nat.add_sub_cancel_left]
    have hlength : i < (lastSlot h).length := by rwa [lastSlot_length]
    rw [if_pos hi, hbyte, List.getD_eq_getElem?_getD, List.getElem?_eq_getElem hlength]
    rfl
  · rw [if_neg hi, List.getElem?_eq_none (by rw [lastSlot_length]; omega)]

theorem lastSlot_parses : ∃ ub, Uberblock.parse (lastSlot h) = .ok ub ∧ ub.txg = 0 := by
  have hlength : 984 ≤ (lastSlot h).length := by
    rw [lastSlot_length]
    decide
  have htake : (lastSlot h).take 984 = plainSlot.take 984 :=
    sealEmbedded_take h eckSize_le_plainSlot _ (by rw [plainSlot_length]; decide)
  have hplain : (Uberblock.parse (plainSlot.take 984)).toOption.map Uberblock.txg = some 0 := by
    decide +kernel
  rw [← htake, parse_take (by decide) hlength] at hplain
  cases hparse : Uberblock.parse (lastSlot h) with
  | error e =>
    rw [hparse] at hplain
    cases hplain
  | ok ub =>
    rw [hparse] at hplain
    exact ⟨ub, rfl, Option.some.inj hplain⟩

theorem lastSlot_shift : 10 ∈ plausibleShifts (lastSlot h) := by
  have hword : Endian.little.u64At (lastSlot h) (2 ^ 10 - eckSize) = some zecMagic := by
    have hlength : 2 ^ 10 = plainSlot.length := plainSlot_length.symm
    rw [lastSlot, sealLabel, hlength]
    exact u64At_sealEmbedded h _
  have hlength : ¬ (lastSlot h).length < 2 ^ 10 := by
    rw [lastSlot_length]
    decide
  refine List.mem_filter.mpr ⟨by decide, ?_⟩
  simp only [plausibleShift, if_neg hlength, hword]
  exact decide_eq_true (Or.inl trivial)

/-- The slot is confirmed, for the base zero. -/
theorem lastSlot_confirmed :
    Confirmed h (lastSlotImage h) Search.default uberblockRingOffset 0 := by
  obtain ⟨ub, hub, htxg⟩ := lastSlot_parses h
  have hcandidate : (0, 0, uberblockRingOffset) ∈ slotOffsets ub.txg 10 none := by
    rw [htxg]
    decide
  have hverify : verifyLabel h ((lastSlot h).take (2 ^ 10)) uberblockRingOffset = .ok := by
    have hshort : (lastSlot h).length ≤ 2 ^ 10 := (lastSlot_length h).le
    rw [List.take_of_length_le hshort]
    exact verify_sealLabel h eckSize_le_plainSlot _
  let anchor : Anchor :=
    { physical := uberblockRingOffset
      base := uberblockRingOffset - uberblockRingOffset
      vdevOffset := uberblockRingOffset
      label := some 0
      slot := 0
      shift := 10
      ub }
  have hanchor : anchor ∈ anchorsOf h (lastSlot h) uberblockRingOffset ub 10
      (slotOffsets ub.txg 10 none) := by
    refine List.mem_filterMap.mpr ⟨_, hcandidate, ?_⟩
    simp only [if_neg (Nat.lt_irrefl _), hverify, ne_eq, not_true_eq_false, if_false]
    rfl
  refine ⟨none, List.mem_cons_self, false, anchor, ?_, Nat.sub_self _⟩
  rw [rest_lastSlotImage, confirmSlotAt, hub]
  exact List.mem_flatMap.mpr ⟨10, lastSlot_shift h, hanchor⟩

/-- The search meets no magic before it, and comes to its end without a base. -/
theorem lastSlot_unfound {fuel : Nat} {found : Found}
    (hsearch : search h (lastSlotImage h) Search.default fuel = .ok (some found)) :
    uberblockRingOffset ∉ found.examined ∧ found.byBase = [] := by
  have hring : uberblockRingOffset = 131072 := rfl
  have hslot : maxSlot = 8192 := rfl
  have hchunk : chunkSize = 4194304 := rfl
  have hsize : (lastSlotImage h).size = uberblockRingOffset + 1024 := rfl
  have hearly : ∀ p ∈ found.examined, p + 8 ≤ uberblockRingOffset := by
    intro p hp
    obtain ⟨w, hw, hcovers⟩ := (mem_examined_iff (Or.inr rfl) rfl hsearch p).mp hp
    obtain rfl : w = (0, (lastSlotImage h).size) := List.mem_singleton.mp hw
    have hstop := hcovers.size
    have htail := hcovers.tail
    rw [Nat.sub_zero, hchunk] at htail
    omega
  refine ⟨fun hp => absurd (hearly _ hp) (by omega), ?_⟩
  refine search_quiet (Or.inr rfl) rfl ?_ hsearch
  intro p hp
  have hp8 := hearly p ((mem_examined_iff (Or.inr rfl) rfl hsearch p).mpr hp)
  refine hasMagic_zeros _ (fun i hi => ?_)
  exact if_pos (by omega)

theorem lastSlot_step : Step (lastSlotImage h) Search.default uberblockRingOffset := by
  have hring : uberblockRingOffset = 131072 := rfl
  have hstride : Search.default.stride = 512 := rfl
  have hshift : Uberblock.shift = 10 := rfl
  have hsize : (lastSlotImage h).size = uberblockRingOffset + 1024 := rfl
  refine ⟨(0, (lastSlotImage h).size), List.mem_singleton.mpr rfl, 256, ?_, ?_, ?_⟩
  · simp only [hstride, hring, Nat.zero_add, Nat.reduceMul]
  · simp only [hsize]
    omega
  · rw [hsize, hshift, hring]
    omega

end LastSlot

end Scan
end ZvolRescue
