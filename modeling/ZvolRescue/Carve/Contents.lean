import ZvolRescue.Carve.Workspace
import ZvolRescue.Dmu.Range
import ZvolRescue.Extract.Visited
import ZvolRescue.Ondisk.Signature

/-!
# The size of what is dumped

A dnode says how many blocks an object has, and what lies inside often says how large the
volume was made.  The second is preferred, so a dump of a candidate leaves out blocks of it
exactly when a smaller size is stated inside than the dnode implies (`leavesNoneOut_iff`).
-/

namespace ZvolRescue
namespace Carve

open Lib Ondisk Zio Dmu Extract

/-! ## What lies inside -/

/-- The sizes that a candidate's own bytes state.  A range that cannot be read is not there. -/
def contentsOf (obj : ObjectReader Id) : List (Option Nat) :=
  (Signature.identify (fun at_ len => (obj.readRange at_ len).toOption)).map Signature.Found.size

/-- The size that the first superblock which has one states. -/
def statedSize (obj : ObjectReader Id) : Option Nat :=
  (Signature.identify (fun at_ len => (obj.readRange at_ len).toOption)).findSome?
    Signature.Found.size

/-- What a scan records.  Nothing is read where no pool assembled. -/
def contentsRead (pool : Option (ObjectReader Id)) : List (Option Nat) :=
  (pool.map contentsOf).getD []

theorem findSome?_contentsRead (pool : Option (ObjectReader Id)) :
    (contentsRead pool).findSome? id = pool.bind statedSize := by
  cases pool with
  | none => rfl
  | some obj =>
    show (contentsOf obj).findSome? id = statedSize obj
    rw [contentsOf, List.findSome?_map]
    rfl

theorem contentsOf_lt (obj : ObjectReader Id) :
    ∀ size, some size ∈ contentsOf obj → size < word := by
  intro size hsize
  obtain ⟨f, hf, hfsize⟩ := List.mem_map.mp hsize
  exact Signature.identify_size_lt _ hf size hfsize

/-! ## Dumps -/

/-- Bytes up to the end of the last block that the dnode addresses. -/
def Candidate.span (c : Candidate) : Nat := (c.dnode.maxblkid + 1) * c.dnode.datablksz

/-- A dump that is given no size makes an image of all blocks that the dnode addresses, and where
it runs to its end it has visited each of them. -/
def LeavesNoneOut (c : Candidate) : Prop :=
  ∀ req : DumpRequest, req.size = none →
    c.span ≤ req.volsize c ∧
      ∀ (σ : Type) (reader : PoolReader (StateM σ)) (hashes : ImageHashes) (onError : OnError)
        (digests : Digests) (file : SparseFile) (s : σ) (report : Report) (run : Run SparseFile),
        (extractFrom hashes (req.target reader c).obj (req.volsize c) SparseFile.sink onError 0
          digests never file s).1 = (.ok report, run) →
        report.aborted = false →
        c.span ≤ run.sink.file.length ∧
          ∀ b, b ≤ c.dnode.maxblkid → (b + 1, report.blocksTotal) ∈ run.calls

/-- The size of a dump that is given none. -/
theorem volsize_of_none {c : Candidate} {pool : Option (ObjectReader Id)}
    (hcontents : c.contents = contentsRead pool) {req : DumpRequest} (h : req.size = none) :
    req.volsize c = (pool.bind statedSize).getD (Profile.impliedSize c.dnode) := by
  rw [DumpRequest.volsize, h, hcontents, findSome?_contentsRead]
  cases pool.bind statedSize with
  | none => rfl
  | some size => rfl

theorem impliedSize_eq {d : DnodePhys} (h : (d.maxblkid + 1) * d.datablksz < word)
    (hbs : d.datablksz ≠ 0) : Profile.impliedSize d = (d.maxblkid + 1) * d.datablksz := by
  have hle := Nat.le_mul_of_pos_right (d.maxblkid + 1) (Nat.pos_of_ne_zero hbs)
  have hword : word = 2 ^ 64 := rfl
  rw [Profile.impliedSize, Nat.min_eq_left (by omega : d.maxblkid + 1 ≤ 2 ^ 64 - 1), Nat.mul_comm,
    Nat.min_eq_left (by omega)]

/-- An extraction that runs to its end leaves an image of the size it was given, and has visited
every block of the object inside. -/
theorem extraction_whole {σ : Type} (hashes : ImageHashes) (obj : ObjectReader (StateM σ))
    {vol : Nat} (hvol : vol < word) (hbs : obj.dnode.datablksz ≠ 0)
    (hspan : (obj.dnode.maxblkid + 1) * obj.dnode.datablksz ≤ vol) (onError : OnError)
    (digests : Digests) (file : SparseFile) (s : σ) {report : Report} {run : Run SparseFile}
    (hrun : (extractFrom hashes obj vol SparseFile.sink onError 0 digests never file s).1 =
      (.ok report, run)) (haborted : report.aborted = false) :
    run.sink.file.length = vol ∧
      ∀ b, b ≤ obj.dnode.maxblkid → (b + 1, report.blocksTotal) ∈ run.calls := by
  have hvisits : VisitsAll obj vol := by
    apply visitsAll_of_blocks hvol
    intro _
    have hle := Nat.le_mul_of_pos_right (obj.dnode.maxblkid + 1) (Nat.pos_of_ne_zero hbs)
    rw [blocksTotal, add64_of_lt (by omega)]
  refine ⟨?_, fun b hb => ?_⟩
  · obtain ⟨report', run', hrun', hex⟩ := extractFrom_extracted hashes obj hvol hbs onError
      (by rw [Nat.zero_mul]; exact Nat.zero_le _) digests never file s (fun _ _ => rfl)
    rw [hrun] at hrun'
    cases hrun'
    have hended := hex.aborted
    rw [haborted] at hended
    rw [hex.file, if_neg (of_decide_eq_false hended.symm)]
    exact setLen_length _ _
  · apply hvisits hashes onError digests file s report run hrun haborted b hb
    have hlast : b * obj.dnode.datablksz < (obj.dnode.maxblkid + 1) * obj.dnode.datablksz :=
      Nat.mul_lt_mul_of_pos_right (Nat.lt_succ_of_le hb) (Nat.pos_of_ne_zero hbs)
    omega

/-- A dump that is given no size makes an image of the size that is stated inside, or else of the
one that the dnode implies.  It leaves out no block exactly where the blocks span fewer than
2^64 bytes and no smaller size is stated. -/
theorem leavesNoneOut_iff (pool : Option (ObjectReader Id)) (c : Candidate)
    (hcontents : c.contents = contentsRead pool) :
    (∀ req : DumpRequest, req.size = none →
      req.volsize c = (pool.bind statedSize).getD (Profile.impliedSize c.dnode)) ∧
      (LeavesNoneOut c ↔
        c.span < word ∧ ∀ size, pool.bind statedSize = some size → c.span ≤ size) := by
  refine ⟨fun req hnone => volsize_of_none hcontents hnone, fun h => ?_, ?_⟩
  · obtain ⟨req, hnone⟩ : ∃ req : DumpRequest, req.size = none := ⟨resumeFirst, rfl⟩
    have hspan := (h req hnone).1
    have hvol := (req.target_sound smallReader c).volsize
    refine ⟨Nat.lt_of_le_of_lt hspan hvol, fun size hsize => ?_⟩
    rw [volsize_of_none hcontents hnone, hsize] at hspan
    exact hspan
  · rintro ⟨hword, hstated⟩ req hnone
    have hspan : c.span ≤ req.volsize c := by
      rw [volsize_of_none hcontents hnone]
      cases hsize : pool.bind statedSize with
      | none => exact (impliedSize_eq hword c.blocksize).ge
      | some size => exact hstated size hsize
    refine ⟨hspan, fun σ reader hashes onError digests file s report run hrun haborted => ?_⟩
    obtain ⟨hlen, hvisits⟩ := extraction_whole hashes (req.target reader c).obj
      (req.target_sound reader c).volsize c.blocksize hspan onError digests file s hrun haborted
    exact ⟨hlen ▸ hspan, hvisits⟩

/-! ## A small superblock in a larger volume -/

/-- A volume of three blocks of one sector, of which only the last is written. -/
def lastWritten : List UInt8 :=
  setLen
    (setLen [23, 17, 1, 3, 0, 0, 0, 0, 1, 0, 0, 0, 0, 0, 0, 0, 2] dnodeCoreSize ++
      zeros (2 * bpSize) ++
      [1, 1, 0, 0, 0, 0, 2 ^ 63 + 23 * 2 ^ 48 + 7 * 2 ^ 40 + 2 * 2 ^ 32, 0, 0, 0, 5].flatMap
        (fun w => Endian.little.bytes w))
    dnodeSize

/-- A superblock of one block of 1024 bytes, or of none. -/
def extBlock (blocks : UInt8) : List UInt8 :=
  setLen ([0, 0, 0, 0, blocks] ++ zeros 51 ++ [0x53, 0xef]) 512

/-- The object of a dnode whose written blocks all hold these bytes. -/
def filledWith (data : List UInt8) (d : DnodePhys) : ObjectReader Id where
  reader :=
    { readBlock := fun _ => .ok { data, verify := .ok, attempts := [] }
      verify := fun _ _ => Verify.ok
      salvageDva := fun _ _ => .error .noMember }
  dnode := d
  endian := .little

/-- The candidate that a scan makes of an object. -/
def candidateOf (obj : ObjectReader Id) (hbs : obj.dnode.datablksz ≠ 0) : Candidate where
  device := 0
  path := "member.img"
  offset := 0
  slot := 0
  score := 1
  contents := contentsOf obj
  dnode := obj.dnode
  blocksize := hbs
  contents_lt := contentsOf_lt obj
  id := candidateId 1

theorem lastWritten_stated (blocks : UInt8) (stated : Option Nat)
    (h : (DnodePhys.parse lastWritten .little).toOption.map (fun d =>
      (plausibleDnode d, d.maxblkid, d.datablksz, statedSize (filledWith (extBlock blocks) d))) =
        some (.ok (), 2, 512, stated)) :
    ∃ d, DnodePhys.parse lastWritten .little = .ok d ∧ plausibleDnode d = .ok () ∧
      d.maxblkid = 2 ∧ d.datablksz = 512 ∧
      statedSize (filledWith (extBlock blocks) d) = stated := by
  cases hparse : DnodePhys.parse lastWritten .little with
  | error e =>
    rw [hparse] at h
    cases h
  | ok d =>
    rw [hparse] at h
    simp only [Except.toOption, Option.map_some, Option.some.injEq, Prod.mk.injEq] at h
    exact ⟨d, rfl, h⟩

theorem leavesNoneOut_iff_unstated : ∃ d, ∃ hbs : d.datablksz ≠ 0,
    DnodePhys.parse lastWritten .little = .ok d ∧
      LeavesNoneOut (candidateOf (filledWith (extBlock 0) d) hbs) := by
  obtain ⟨d, hd, -, hmax, hsize, hstated⟩ := lastWritten_stated 0 none
    (by decide +kernel)
  have hbs : d.datablksz ≠ 0 := by
    rw [hsize]
    decide
  refine ⟨d, hbs, hd, (leavesNoneOut_iff (some (filledWith (extBlock 0) d))
    (candidateOf (filledWith (extBlock 0) d) hbs) rfl).2.mpr ⟨?_, ?_⟩⟩
  · show (d.maxblkid + 1) * d.datablksz < word
    rw [hmax, hsize]
    decide
  · intro size hstates
    cases hstated.symm.trans hstates

/-- The superblock says that the volume ends before the block which holds it. -/
theorem dump_leaves_block_out :
    ¬ ∀ (bytes : List UInt8) (d : DnodePhys) (obj : ObjectReader Id) (c : Candidate),
      DnodePhys.parse bytes .little = .ok d → plausibleDnode d = .ok () → obj.dnode = d →
      c.dnode = d → c.contents = contentsRead (some obj) → LeavesNoneOut c := by
  intro h
  obtain ⟨d, hd, hfits, hmax, hsize, hstated⟩ := lastWritten_stated 1 (some 1024)
    (by decide +kernel)
  have hbs : d.datablksz ≠ 0 := by
    rw [hsize]
    decide
  have hspan := (h lastWritten d (filledWith (extBlock 1) d)
    (candidateOf (filledWith (extBlock 1) d) hbs) hd hfits rfl rfl rfl resumeFirst rfl).1
  have hcontents : (candidateOf (filledWith (extBlock 1) d) hbs).contents =
      contentsRead (some (filledWith (extBlock 1) d)) := rfl
  have hstates : (some (filledWith (extBlock 1) d)).bind statedSize = some 1024 := hstated
  rw [volsize_of_none hcontents rfl, hstates] at hspan
  have hthree : (d.maxblkid + 1) * d.datablksz ≤ 1024 := hspan
  rw [hmax, hsize] at hthree
  exact absurd hthree (by decide)

end Carve
end ZvolRescue
