import ZvolRescue.Extract.Straight

/-!
# Every allocated block is visited

The number of blocks of an object is one more than its highest block id, a 64-bit number read
from the disk.  Extraction visits every block up to that id, and nothing derived from it
wraps, exactly when the object spans less than 2^64 blocks and bytes (`no_block_dropped_iff`).
-/

namespace ZvolRescue
namespace Extract

open Lib Ondisk Zio Dmu

variable {σ : Type}

/-- Every extraction of the volume that runs to its end visits every block of the object that
lies inside the volume; for each of them `progress` was called. -/
def VisitsAll (obj : ObjectReader (StateM σ)) (vol : Nat) : Prop :=
  ∀ (hashes : ImageHashes) (onError : OnError) (digests : Digests) (file : SparseFile) (s : σ)
    (report : Report) (run : Run SparseFile),
    (extractFrom hashes obj vol SparseFile.sink onError 0 digests never file s).1 =
      (.ok report, run) →
    report.aborted = false →
    ∀ b, b ≤ obj.dnode.maxblkid → b * obj.dnode.datablksz < vol →
      (b + 1, report.blocksTotal) ∈ run.calls

/-- What is derived from the highest block id of an object is what it is in exact numbers. -/
structure Unwrapped (obj : ObjectReader (StateM σ)) (vol : Nat) : Prop where
  blocks : obj.dnode.datablksz ≠ 0 → blocksTotal obj.dnode vol =
    min (obj.dnode.maxblkid + 1) (divCeil vol obj.dnode.datablksz)
  visits : VisitsAll obj vol
  logicalSize : obj.logicalSize = (obj.dnode.maxblkid + 1) * obj.dnode.datablksz
  maxObject : (DnodeArray.mk obj).maxObject =
    (obj.dnode.maxblkid + 1) * (DnodeArray.mk obj).slotsPerBlock

/-- A block is visited where it lies below the number of blocks. -/
theorem visitsAll_of_blocks {obj : ObjectReader (StateM σ)} {vol : Nat} (hvol : vol < word)
    (hblocks : obj.dnode.datablksz ≠ 0 → blocksTotal obj.dnode vol =
      min (obj.dnode.maxblkid + 1) (divCeil vol obj.dnode.datablksz)) : VisitsAll obj vol := by
  intro hashes onError digests file s report run hrun haborted b hle hin
  by_cases hbs : obj.dnode.datablksz = 0
  · simp only [extractFrom, if_pos hbs] at hrun
    cases congrArg Prod.fst hrun
  · have hzero : 0 * obj.dnode.datablksz ≤ vol := by
      rw [Nat.zero_mul]
      exact Nat.zero_le _
    obtain ⟨report', run', hrun', hex⟩ := extractFrom_extracted hashes obj hvol hbs onError hzero
      digests never file s (fun _ _ => rfl)
    rw [hrun] at hrun'
    cases hrun'
    obtain ⟨-, hall⟩ := hex.ends.complete_of_never (by
      intro hend
      rw [hex.aborted, hend] at haborted
      cases haborted)
    have hb : b < blocksTotal obj.dnode vol := by
      rw [hblocks hbs]
      exact Nat.lt_min.mpr ⟨by omega, (lt_divCeil_iff (Nat.pos_of_ne_zero hbs)).mpr hin⟩
    rw [hex.calls, hex.blocksTotal, hall]
    exact List.mem_map.mpr ⟨b, List.mem_range'_1.mpr ⟨Nat.zero_le _, by omega⟩, rfl⟩

/-- No allocated block is dropped and nothing wraps if and only if the object spans fewer than
2^64 bytes. -/
theorem no_block_dropped_iff (obj : ObjectReader (StateM σ)) {vol : Nat} (hvol : vol < word) :
    Unwrapped obj vol ↔ (obj.dnode.maxblkid + 1) * obj.dnode.datablksz < word := by
  constructor
  · intro h
    rw [← h.logicalSize]
    exact Nat.mod_lt _ (by decide)
  · intro h
    have hcount : obj.dnode.datablksz ≠ 0 → add64 obj.dnode.maxblkid 1 = obj.dnode.maxblkid + 1 := by
      intro hbs
      apply add64_of_lt
      have hle := Nat.le_mul_of_pos_right (obj.dnode.maxblkid + 1) (Nat.pos_of_ne_zero hbs)
      omega
    have hblocks : obj.dnode.datablksz ≠ 0 → blocksTotal obj.dnode vol =
        min (obj.dnode.maxblkid + 1) (divCeil vol obj.dnode.datablksz) := by
      intro hbs
      rw [blocksTotal, hcount hbs]
    have hslots : (DnodeArray.mk obj).slotsPerBlock ≤ obj.dnode.datablksz :=
      Nat.div_le_self _ dnodeSize
    have hzero : ∀ n, n ≤ obj.dnode.datablksz →
        mul64 (add64 obj.dnode.maxblkid 1) n = (obj.dnode.maxblkid + 1) * n := by
      intro n hn
      by_cases hbs : obj.dnode.datablksz = 0
      · have hnone : n = 0 := by omega
        rw [hnone]
        rfl
      · rw [hcount hbs]
        exact mul64_of_lt (Nat.lt_of_le_of_lt (Nat.mul_le_mul_left _ hn) h)
    exact
      { blocks := hblocks
        visits := visitsAll_of_blocks hvol hblocks
        logicalSize := hzero _ (Nat.le_refl _)
        maxObject := hzero _ hslots }

/-! ## The highest block id there can be -/

/-- A dnode of one slot: a volume's data in blocks of 512 bytes, the first of them unallocated. -/
def dnodeBytes (maxblkid : List UInt8) : List UInt8 :=
  [23, 17, 1, 1, 0, 0, 0, 0, 1, 0, 0, 0, 0, 0, 0, 0] ++ maxblkid ++ List.replicate 488 0

/-- The object under a dnode, none of whose blocks is there. -/
def bareObject (d : DnodePhys) : ObjectReader (StateM Unit) :=
  { holesTarget.obj with dnode := d }

/-- The parser accepts such a dnode, whatever its highest block id. -/
theorem dnodeBytes_parse {maxblkid : List UInt8} {n : Nat}
    (h : (DnodePhys.parse (dnodeBytes maxblkid) .little).toOption.map
      (fun d => (d.maxblkid, d.datablksz)) = some (n, 512)) :
    ∃ d, DnodePhys.parse (dnodeBytes maxblkid) .little = .ok d ∧ d.maxblkid = n ∧
      d.datablksz = 512 := by
  obtain ⟨d, hd, hfields⟩ := Option.map_eq_some_iff.mp h
  rw [Prod.mk.injEq] at hfields
  cases hparse : DnodePhys.parse (dnodeBytes maxblkid) .little with
  | error e =>
    rw [hparse] at hd
    cases hd
  | ok d' =>
    rw [hparse] at hd
    cases hd
    exact ⟨d, rfl, hfields⟩

theorem no_block_dropped_iff_thousand :
    ∃ d, DnodePhys.parse (dnodeBytes [231, 3, 0, 0, 0, 0, 0, 0]) .little = .ok d ∧
      Unwrapped (bareObject d) 1024 := by
  obtain ⟨d, hd, hmax, hsize⟩ : ∃ d, DnodePhys.parse (dnodeBytes [231, 3, 0, 0, 0, 0, 0, 0])
      .little = .ok d ∧ d.maxblkid = 999 ∧ d.datablksz = 512 :=
    dnodeBytes_parse (by decide +kernel)
  refine ⟨d, hd, (no_block_dropped_iff (bareObject d) (by decide)).mpr ?_⟩
  show (d.maxblkid + 1) * d.datablksz < word
  rw [hmax, hsize]
  decide

/-- The volume ends before its first block, and the extraction is a success. -/
theorem no_block_dropped_wraps :
    ¬ ∀ (buf : List UInt8) (endian : Endian) (d : DnodePhys) (vol : Nat),
      DnodePhys.parse buf endian = .ok d → vol < word →
      ∀ (σ : Type) (obj : ObjectReader (StateM σ)), obj.dnode = d → Unwrapped obj vol := by
  intro h
  obtain ⟨d, hd, hmax, hsize⟩ : ∃ d, DnodePhys.parse (dnodeBytes (List.replicate 8 255))
      .little = .ok d ∧ d.maxblkid = word - 1 ∧ d.datablksz = 512 :=
    dnodeBytes_parse (by decide +kernel)
  have hvol : 1024 < word := by decide
  have hunwrapped := h _ .little d 1024 hd hvol Unit (bareObject d) rfl
  have hnone : blocksTotal (bareObject d).dnode 1024 = 0 := by
    show min (add64 d.maxblkid 1) _ = 0
    rw [hmax]
    exact Nat.zero_min _
  have hbs : (bareObject d).dnode.datablksz ≠ 0 := by
    show d.datablksz ≠ 0
    rw [hsize]
    decide
  obtain ⟨report, run, hrun, hex⟩ := extractFrom_extracted someHashes (bareObject d) hvol hbs .zero
    (by rw [Nat.zero_mul]; exact Nat.zero_le _) (Digests.new ⟨false, false⟩) never
    SparseFile.create () (fun _ _ => rfl)
  -- No block is left to be visited, so nothing stops the run either.
  rw [hnone] at hex
  have hcalls : run.calls = [] := hex.calls
  have haborted : report.aborted = false := hex.aborted
  have hfirst := hunwrapped.visits someHashes .zero _ SparseFile.create () report run hrun haborted 0
    (Nat.zero_le _) (by rw [Nat.zero_mul]; decide)
  rw [hcalls] at hfirst
  cases hfirst

end Extract
end ZvolRescue
