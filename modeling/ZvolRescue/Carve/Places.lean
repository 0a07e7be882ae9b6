import ZvolRescue.Carve.Resume
import ZvolRescue.Ondisk.BlkPtr

/-!
# Where a block can start

A vdev allocates at multiples of its own ashift from its own start, and a scan tries blocks at
multiples of one ashift from the start of what it scans.  It tries all places of a vdev if and
only if the two grids agree (`tries_all_iff`).
-/

namespace ZvolRescue
namespace Carve
namespace Member

open Lib Ondisk Source

/-- The ashift that all members are scanned by: that of the first top-level vdev which states
one, or else a common one. -/
def scanAshift (tops : List (Option Nat)) : Nat := (tops.findSome? id).getD 12 % 2 ^ 32

/-- Where block `k` of a vdev can start that begins at `base`. -/
def blockStart (base a k : Nat) : Nat := base + labelStartSize + k * 2 ^ a

section Tried

variable (opts : Options) (m : Medium) (ashift : Nat)

/-- The offsets that a scan to the end tries blocks at, chunk by chunk. -/
def tried : List Nat :=
  if opts.codecs = [] then []
  else
    (chunkStarts opts m (endOf opts m) (m.size + 1) (startOf opts m)).flatMap (fun at_ =>
      (List.range (divCeil (ownOf opts (endOf opts m) at_) (stepOf ashift))).map (fun j =>
        at_ + j * stepOf ashift))

variable {opts m ashift}

theorem mem_tried_iff (hchunk : 0 < opts.chunk) {p : Nat} :
    p ∈ tried opts m ashift ↔ BlockPlace opts m ashift p := by
  have hstep : 0 < stepOf ashift := Nat.two_pow_pos _
  have hend : endOf opts m ≤ m.size := endOf_le
  have hfuel : endOf opts m ≤ startOf opts m + (m.size + 1) := by omega
  rw [tried]
  by_cases hcodecs : opts.codecs = []
  · rw [if_pos hcodecs]
    exact iff_of_false List.not_mem_nil (fun h => h.codecs hcodecs)
  · rw [if_neg hcodecs, List.mem_flatMap]
    constructor
    · rintro ⟨at_, hat, hp⟩
      obtain ⟨j, hj, rfl⟩ := List.mem_map.mp hp
      rw [List.mem_range, lt_divCeil_iff hstep] at hj
      obtain ⟨i, rfl, -, hsize⟩ := (mem_chunkStarts hchunk _ _ hfuel).mp hat
      obtain ⟨hbase, -, -⟩ := place_in_chunk hj
      refine ⟨hcodecs, ?_, ?_, ?_, ?_⟩
      · exact Nat.le_trans (Nat.le_add_right _ _) (Nat.le_add_right _ _)
      · rw [ownOf] at hj
        omega
      · rw [hbase, Nat.add_sub_cancel_left, Nat.mul_mod_left]
      · rwa [hbase]
    · intro h
      obtain ⟨hle, hlt⟩ := chunk_of_place hchunk h.start h.stop
      have hdvd : stepOf ashift ∣ p - chunkOf opts m p := Nat.dvd_of_mod_eq_zero h.step
      have hstop := h.stop
      refine ⟨chunkOf opts m p, (mem_chunkStarts hchunk _ _ hfuel).mpr
        ⟨(p - startOf opts m) / opts.chunk, rfl, by omega, h.size⟩,
        List.mem_map.mpr ⟨(p - chunkOf opts m p) / stepOf ashift, ?_, ?_⟩⟩
      · rw [List.mem_range, lt_divCeil_iff hstep, Nat.div_mul_cancel hdvd]
        exact hlt
      · rw [Nat.div_mul_cancel hdvd, Nat.add_sub_cancel' hle]

/-- What is met compressed is met at an offset that is tried. -/
theorem compressed_mem_tried {c : Codecs} {device : Nat} (hchunk : 0 < opts.chunk)
    (hslots : dnodeSize ∣ opts.chunk) {e : Event} (he : e.found ≠ .plaintext) :
    e ∈ allEvents opts m ashift c device (m.size + 1) ↔
      e.offset ∈ tried opts m ashift ∧
        e ∈ blockAt opts device m c e.offset (blockLeft opts m e.offset) := by
  have hend : endOf opts m ≤ m.size := endOf_le
  rw [mem_allEvents_of_compressed hchunk hslots (by omega) he, mem_tried_iff hchunk]

end Tried

theorem stepOf_dvd_iff {ashift a : Nat} : stepOf ashift ∣ 2 ^ a ↔ max 9 (min ashift 17) ≤ a :=
  Nat.pow_dvd_pow_iff_le_right (by decide)

section Places

variable (q : Request) (m : Medium) (tops : List (Option Nat)) (base a : Nat)

/-- A place of the vdev in the range that is scanned. -/
def InRange (k : Nat) : Prop :=
  startOf (q.options q.range) m ≤ blockStart base a k ∧
    blockStart base a k < endOf (q.options q.range) m

/-- The scan tries every place that a block of the vdev can start at. -/
def TriesAll : Prop :=
  ∀ k, InRange q m base a k → blockStart base a k ∈ tried (q.options q.range) m (scanAshift tops)

/-- The grid of the scan has the places of the vdev. -/
structure OnGrid : Prop where
  codecs : ∀ k, InRange q m base a k → q.codecs ≠ []
  /-- No place is in a last chunk too short to be read. -/
  size : ∀ k, InRange q m base a k →
    dnodeSize ≤ m.size - chunkOf (q.options q.range) m (blockStart base a k)
  /-- The first place of the vdev is on the grid. -/
  first : ∀ k, InRange q m base a k →
    k = 0 ∨ blockStart base a (k - 1) < startOf (q.options q.range) m →
    (blockStart base a k - startOf (q.options q.range) m) % stepOf (scanAshift tops) = 0
  /-- Where there are two, the grid is not wider than the vdev's. -/
  width : ∀ k, InRange q m base a k → blockStart base a (k + 1) < endOf (q.options q.range) m →
    max 9 (min (scanAshift tops) 17) ≤ a

variable {q m tops base a}

/-- A place of the vdev is tried where the grid has it and its chunk is read. -/
theorem tries_iff {k : Nat} (hk : InRange q m base a k) :
    blockStart base a k ∈ tried (q.options q.range) m (scanAshift tops) ↔
      q.codecs ≠ [] ∧
        dnodeSize ≤ m.size - chunkOf (q.options q.range) m (blockStart base a k) ∧
        stepOf (scanAshift tops) ∣ blockStart base a k - startOf (q.options q.range) m := by
  have hchunks : stepOf (scanAshift tops) ∣ (q.options q.range).chunk := by
    show stepOf (scanAshift tops) ∣ 2 ^ 22
    rw [stepOf_dvd_iff]
    omega
  have hsub : (blockStart base a k - chunkOf (q.options q.range) m (blockStart base a k)) %
      stepOf (scanAshift tops) =
      (blockStart base a k - startOf (q.options q.range) m) % stepOf (scanAshift tops) := by
    rw [chunkOf, sub_chunkBase hk.1, Nat.mod_mod_of_dvd _ hchunks]
  rw [mem_tried_iff chunk_pos]
  constructor
  · intro h
    refine ⟨h.codecs, h.size, Nat.dvd_of_mod_eq_zero ?_⟩
    rw [← hsub]
    exact h.step
  · rintro ⟨hcodecs, hsize, hdvd⟩
    refine ⟨hcodecs, hk.1, hk.2, ?_, hsize⟩
    rw [hsub]
    exact Nat.mod_eq_zero_of_dvd hdvd

variable (q m tops base a)

/-- The scan tries every place of a vdev if and only if its grid has the places of the vdev. -/
theorem tries_all_iff : TriesAll q m tops base a ↔ OnGrid q m tops base a := by
  have hplaces := places_dvd_iff (b := base + labelStartSize) (g := 2 ^ a)
    (s := startOf (q.options q.range) m) (e := endOf (q.options q.range) m)
    (t := stepOf (scanAshift tops))
  constructor
  · intro h
    have hgrid := fun k hk => (tries_iff hk).mp (h k hk)
    obtain ⟨hfirst, hwidth⟩ := hplaces.mp (fun k hstart hstop => (hgrid k ⟨hstart, hstop⟩).2.2)
    refine ⟨fun k hk => (hgrid k hk).1, fun k hk => (hgrid k hk).2.1, fun k hk hone => ?_,
      fun k hk hnext => stepOf_dvd_iff.mp (hwidth k hk.1 hnext)⟩
    exact Nat.mod_eq_zero_of_dvd (hfirst k hk.1 hk.2 hone)
  · intro h k hk
    refine (tries_iff hk).mpr ⟨h.codecs k hk, h.size k hk, ?_⟩
    refine hplaces.mpr ⟨fun k hstart hstop hone => ?_, fun k hstart hnext => ?_⟩ k hk.1 hk.2
    · exact Nat.dvd_of_mod_eq_zero (h.first k ⟨hstart, hstop⟩ hone)
    · have hstop : blockStart base a k < endOf (q.options q.range) m := by
        have hpos := Nat.two_pow_pos a
        rw [blockStart]
        rw [Nat.succ_mul] at hnext
        omega
      exact stepOf_dvd_iff.mpr (h.width k ⟨hstart, hstop⟩ hnext)

end Places

/-- A member of 8 MiB whose vdev begins 63 sectors in. -/
def oldPartition : Medium :=
  { size := 8388608, byte := fun _ => 0, device := false, size_lt := by decide }

/-- A scan for blocks of `lz4`. -/
def lz4Request : Request :=
  { profile := Profile.none, strictProfile := false, range := none, codecs := [.lz4]
    maxHits := 100000 }

/-- The places of a vdev that begins 63 sectors in are stepped over, and those of a vdev of a
smaller ashift than the first. -/
theorem places_missed :
    ¬ TriesAll lz4Request oldPartition [some 12] (63 * 512) 12 ∧
      ¬ TriesAll lz4Request oldPartition [some 12, some 9] 0 9 := by
  constructor
  · intro h
    have hk : InRange lz4Request oldPartition (63 * 512) 12 0 := ⟨by decide, by decide⟩
    have hdvd := ((tries_iff hk).mp (h 0 hk)).2.2
    exact absurd hdvd (by decide)
  · intro h
    have hk : InRange lz4Request oldPartition 0 9 1 := ⟨by decide, by decide⟩
    have hdvd := ((tries_iff hk).mp (h 1 hk)).2.2
    exact absurd hdvd (by decide)

end Member
end Carve
end ZvolRescue
