import ZvolRescue.Dmu.Object

/-!
# Reading a range of an object

`readRange` goes from block to block and takes of each what the range meets.  What it yields is a
slice of the blocks of the object one after another (`readRange_spec`).
-/

namespace ZvolRescue
namespace Dmu

open Lib Ondisk Zio

namespace ObjectReader

section Source

variable {m : Type → Type} [Monad m] (obj : ObjectReader m)

/-- The bytes from `pos` up to `end_`; every round takes one at least. -/
def readRangeFrom (end_ : Nat) : (rounds pos : Nat) → m (Except ReadError (List UInt8))
  | 0, _ => pure (.ok [])
  | rounds + 1, pos =>
    if pos < end_ then do
      let bs := obj.dnode.datablksz
      let blkid := pos / bs
      let within := pos % bs
      let take := min (bs - within) (end_ - pos)
      match ← obj.readBlkid blkid with
      | .error e => pure (.error e)
      | .ok block =>
        Except.map ((block.drop within).take take ++ ·) <$> readRangeFrom end_ rounds (pos + take)
    else pure (.ok [])

def noBlockSize : ReadError := .io "dnode has zero data block size"

/-- The `len` bytes from `offset` on, across the ends of blocks. -/
def readRange (offset len : Nat) : m (Except ReadError (List UInt8)) :=
  if obj.dnode.datablksz = 0 then pure (.error noBlockSize)
  else obj.readRangeFrom (add64 offset len) len offset

end Source

/-! ## Blocks -/

section Range

variable (obj : ObjectReader Id)

/-- The block id lies past the pointers that the dnode has. -/
def PastEnd (blkid : Nat) : Prop :=
  obj.dnode.nlevels = 0 ∨
    obj.dnode.blkptr.length ≤
      (if min (obj.epbs * (obj.dnode.nlevels - 1)) (2 ^ 32 - 1) ≥ 64 then 0
        else shr64 blkid (min (obj.epbs * (obj.dnode.nlevels - 1)) (2 ^ 32 - 1)))

/-- What block `blkid` holds; zeros stand for one that cannot be read. -/
def blockBytes (blkid : Nat) : List UInt8 :=
  ((obj.readBlkid blkid).toOption).getD (List.replicate obj.dnode.datablksz 0)

/-- The range has a byte in the block. -/
def Meets (offset len blkid : Nat) : Prop :=
  ∃ x, offset ≤ x ∧ x < offset + len ∧ x / obj.dnode.datablksz = blkid

variable {obj}

theorem readBlkid_of_none {blkid : Nat} (h : obj.locate blkid = .ok none) :
    obj.readBlkid blkid = .ok (List.replicate obj.dnode.datablksz 0) := by
  have hext : obj.readBlkidExt blkid =
      .ok (List.replicate obj.dnode.datablksz 0, obj.endian) := by
    unfold readBlkidExt
    rw [h]
    rfl
  unfold readBlkid
  rw [hext]
  rfl

theorem locate_of_pastEnd {blkid : Nat} (h : obj.PastEnd blkid) : obj.locate blkid = .ok none := by
  unfold locate
  unfold PastEnd at h
  cases hlevels : obj.dnode.nlevels with
  | zero => rfl
  | succ level =>
    rw [hlevels, Nat.add_sub_cancel] at h
    have hlen := h.resolve_left (Nat.succ_ne_zero level)
    have hnone := List.getElem?_eq_none hlen
    simp only [hnone]
    rfl

theorem readBlkid_length {blkid : Nat} {data : List UInt8} (h : obj.readBlkid blkid = .ok data) :
    data.length = obj.dnode.datablksz := by
  unfold readBlkid at h
  obtain ⟨⟨bytes, endian⟩, hext, rfl⟩ : ∃ r, obj.readBlkidExt blkid = .ok r ∧ r.1 = data := by
    cases hext : obj.readBlkidExt blkid with
    | error e =>
      rw [hext] at h
      cases h
    | ok r =>
      rw [hext] at h
      exact ⟨r, rfl, Except.ok.inj h⟩
  unfold readBlkidExt at hext
  cases hlocate : obj.locate blkid with
  | error e =>
    rw [hlocate] at hext
    cases hext
  | ok found =>
    rw [hlocate] at hext
    cases found with
    | none =>
      cases hext
      exact List.length_replicate
    | some bp =>
      cases hread : obj.reader.readBlock bp with
      | error e =>
        simp only [hread, bind, pure] at hext
        cases hext
      | ok block =>
        simp only [hread, bind, pure] at hext
        cases hext
        exact setLen_length _ _

theorem blockBytes_length (blkid : Nat) : (obj.blockBytes blkid).length = obj.dnode.datablksz := by
  unfold blockBytes
  cases h : obj.readBlkid blkid with
  | error e => exact List.length_replicate
  | ok data => exact readBlkid_length h

theorem blockBytes_of_ok {blkid : Nat} {data : List UInt8} (h : obj.readBlkid blkid = .ok data) :
    obj.blockBytes blkid = data := by
  unfold blockBytes
  rw [h]
  rfl

/-! ## The loop -/

section Loop

variable {end_ : Nat}

/-- What one round takes, and what it leaves. -/
theorem round {pos : Nat} (hbs : 0 < obj.dnode.datablksz) (hpos : pos < end_) :
    let take := min (obj.dnode.datablksz - pos % obj.dnode.datablksz) (end_ - pos)
    0 < take ∧ pos % obj.dnode.datablksz + take ≤ obj.dnode.datablksz ∧ pos + take ≤ end_ := by
  have hmod := Nat.mod_lt pos hbs
  intro take
  omega

theorem readRangeFrom_succ {rounds pos : Nat} (hpos : pos < end_) :
    obj.readRangeFrom end_ (rounds + 1) pos =
      match obj.readBlkid (pos / obj.dnode.datablksz) with
      | .error e => .error e
      | .ok block =>
        Except.map
          (((block.drop (pos % obj.dnode.datablksz)).take
            (min (obj.dnode.datablksz - pos % obj.dnode.datablksz) (end_ - pos))) ++ ·)
          (obj.readRangeFrom end_ rounds
            (pos + min (obj.dnode.datablksz - pos % obj.dnode.datablksz) (end_ - pos))) := by
  rw [readRangeFrom, if_pos hpos]
  rfl

/-- Where the blocks read, the loop yields their bytes. -/
theorem readRangeFrom_ok (hbs : 0 < obj.dnode.datablksz) {n : Nat}
    (hn : end_ ≤ n * obj.dnode.datablksz) :
    ∀ rounds pos, end_ ≤ pos + rounds →
      (∀ x, pos ≤ x → x < end_ → ∃ data, obj.readBlkid (x / obj.dnode.datablksz) = .ok data) →
      obj.readRangeFrom end_ rounds pos =
        .ok (((image obj.blockBytes 0 n).drop pos).take (end_ - pos)) := by
  intro rounds
  induction rounds with
  | zero =>
    intro pos hrounds _
    rw [show end_ - pos = 0 from by omega, List.take_zero]
    rfl
  | succ rounds ih =>
    intro pos hrounds hreads
    by_cases hpos : pos < end_
    · obtain ⟨htake, hin, hend⟩ := round hbs hpos
      obtain ⟨data, hdata⟩ := hreads pos (Nat.le_refl pos) hpos
      have hbytes := blockBytes_of_ok hdata
      rw [readRangeFrom_succ hpos, hdata]
      simp only
      generalize min (obj.dnode.datablksz - pos % obj.dnode.datablksz) (end_ - pos) = take at *
      have hblock : pos / obj.dnode.datablksz < n :=
        (Nat.div_lt_iff_lt_mul hbs).mpr (Nat.lt_of_lt_of_le hpos hn)
      have hslice : ((image obj.blockBytes 0 n).drop pos).take take =
          (data.drop (pos % obj.dnode.datablksz)).take take := by
        have hsame := image_slice blockBytes_length hblock hin
        rwa [Nat.mul_comm, Nat.div_add_mod, hbytes] at hsame
      have hrest := ih (pos + take) (by omega) (fun x hx hlt => hreads x (by omega) hlt)
      have hsum : end_ - pos = take + (end_ - (pos + take)) := by omega
      rw [hrest, ← hslice, hsum, List.take_add, List.drop_drop]
      rfl
    · have hdone : end_ - pos = 0 := by omega
      rw [readRangeFrom, if_neg hpos, hdone, List.take_zero]
      rfl

/-- Where a block fails, so does the loop. -/
theorem readRangeFrom_error (hbs : 0 < obj.dnode.datablksz) :
    ∀ rounds pos, end_ ≤ pos + rounds →
      (∃ x, pos ≤ x ∧ x < end_ ∧ ∃ e, obj.readBlkid (x / obj.dnode.datablksz) = .error e) →
      ∃ e, obj.readRangeFrom end_ rounds pos = .error e := by
  intro rounds
  induction rounds with
  | zero =>
    rintro pos hrounds ⟨x, hx, hlt, -⟩
    omega
  | succ rounds ih =>
    rintro pos hrounds ⟨x, hx, hlt, e, hfails⟩
    have hpos : pos < end_ := by omega
    obtain ⟨htake, hin, hend⟩ := round hbs hpos
    rw [readRangeFrom_succ hpos]
    cases hdata : obj.readBlkid (pos / obj.dnode.datablksz) with
    | error e => exact ⟨e, rfl⟩
    | ok data =>
      simp only
      generalize htake' : min (obj.dnode.datablksz - pos % obj.dnode.datablksz) (end_ - pos) =
        take at *
      have hout : pos + take ≤ x := by
        by_contra hlt'
        have hsame : x / obj.dnode.datablksz = pos / obj.dnode.datablksz := by
          have hdiv := Nat.div_add_mod pos obj.dnode.datablksz
          apply Nat.div_eq_of_lt_le
          · rw [Nat.mul_comm]
            omega
          · rw [Nat.succ_mul, Nat.mul_comm]
            omega
        rw [hsame, hdata] at hfails
        cases hfails
      obtain ⟨e', he'⟩ := ih (pos + take) (by omega) ⟨x, hout, hlt, e, hfails⟩
      exact ⟨e', by rw [he']; rfl⟩

theorem readRangeFrom_length (hbs : 0 < obj.dnode.datablksz) :
    ∀ rounds pos bytes, pos ≤ end_ → end_ ≤ pos + rounds →
      obj.readRangeFrom end_ rounds pos = .ok bytes → pos + bytes.length = end_ := by
  intro rounds
  induction rounds with
  | zero =>
    intro pos bytes hle hrounds h
    cases h
    exact Nat.le_antisymm hle hrounds
  | succ rounds ih =>
    intro pos bytes hle hrounds h
    by_cases hpos : pos < end_
    · obtain ⟨htake, hin, hend⟩ := round hbs hpos
      rw [readRangeFrom_succ hpos] at h
      cases hdata : obj.readBlkid (pos / obj.dnode.datablksz) with
      | error e =>
        rw [hdata] at h
        cases h
      | ok data =>
        have hsize := readBlkid_length hdata
        rw [hdata] at h
        simp only at h
        generalize min (obj.dnode.datablksz - pos % obj.dnode.datablksz) (end_ - pos) = take at *
        cases hrest : obj.readRangeFrom end_ rounds (pos + take) with
        | error e =>
          rw [hrest] at h
          cases h
        | ok rest =>
          rw [hrest] at h
          cases h
          have hlen := ih (pos + take) rest hend (by omega) hrest
          rw [List.length_append, List.length_take, List.length_drop, hsize]
          omega
    · rw [readRangeFrom, if_neg hpos] at h
      cases h
      exact Nat.le_antisymm hle (Nat.not_lt.mp hpos)

end Loop

/-! ## A range -/

theorem readRange_eq (hbs : obj.dnode.datablksz ≠ 0) {offset len : Nat}
    (hfits : offset + len < word) :
    obj.readRange offset len = obj.readRangeFrom (offset + len) len offset := by
  rw [readRange, if_neg hbs, add64_of_lt hfits]

/-- What is read has the length that was asked for. -/
theorem readRange_length {offset len : Nat} (hfits : offset + len < word) {bytes : List UInt8}
    (h : obj.readRange offset len = .ok bytes) : bytes.length = len := by
  by_cases hbs : obj.dnode.datablksz = 0
  · rw [readRange, if_pos hbs] at h
    cases h
  · rw [readRange_eq hbs hfits] at h
    have hlen := readRangeFrom_length (Nat.pos_of_ne_zero hbs) len offset bytes (by omega)
      (Nat.le_refl _) h
    omega

theorem readRange_ok (hbs : obj.dnode.datablksz ≠ 0) {offset len : Nat}
    (hfits : offset + len < word)
    (hreads : ∀ blkid, obj.Meets offset len blkid → ∃ data, obj.readBlkid blkid = .ok data)
    {n : Nat} (hn : offset + len ≤ n * obj.dnode.datablksz) :
    obj.readRange offset len = .ok (((image obj.blockBytes 0 n).drop offset).take len) := by
  have hread := readRangeFrom_ok (Nat.pos_of_ne_zero hbs) hn len offset (Nat.le_refl _)
    (fun x hx hlt => hreads _ ⟨x, hx, hlt, rfl⟩)
  rw [readRange_eq hbs hfits, hread, Nat.add_sub_cancel_left]

/-- A range of blocks that read is a slice of the blocks one after another, and a range fails just
where one of its blocks does. Holes and blocks past the end are zeros. -/
theorem readRange_spec (obj : ObjectReader Id) (hbs : obj.dnode.datablksz ≠ 0) (offset len : Nat)
    (hfits : offset + len < word) :
    ((∀ blkid, obj.Meets offset len blkid → ∃ data, obj.readBlkid blkid = .ok data) →
      ∃ bytes, obj.readRange offset len = .ok bytes ∧ bytes.length = len ∧
        ∀ n, offset + len ≤ n * obj.dnode.datablksz →
          bytes = ((image obj.blockBytes 0 n).drop offset).take len) ∧
      ((∃ e, obj.readRange offset len = .error e) ↔
        ∃ blkid, obj.Meets offset len blkid ∧ ∃ e, obj.readBlkid blkid = .error e) ∧
      ∀ blkid, obj.locate blkid = .ok none ∨ obj.PastEnd blkid →
        obj.readBlkid blkid = .ok (List.replicate obj.dnode.datablksz 0) := by
  have hpos := Nat.pos_of_ne_zero hbs
  have hwhole : offset + len ≤ (offset + len) * obj.dnode.datablksz :=
    Nat.le_mul_of_pos_right _ hpos
  refine ⟨fun hreads => ?_, ⟨fun hfails => ?_, ?_⟩, ?_⟩
  · have hread := readRange_ok hbs hfits hreads hwhole
    have hsize : ∀ blkid, (obj.blockBytes blkid).length = obj.dnode.datablksz := blockBytes_length
    have hlen := image_length_of_whole hsize (offset + len)
    refine ⟨_, hread, ?_, fun n hn => ?_⟩
    · rw [List.length_take, List.length_drop, hlen]
      omega
    · exact Except.ok.inj (hread.symm.trans (readRange_ok hbs hfits hreads hn))
  · by_contra hnone
    have hreads : ∀ blkid, obj.Meets offset len blkid →
        ∃ data, obj.readBlkid blkid = .ok data := by
      intro blkid hmeets
      cases hdata : obj.readBlkid blkid with
      | error e => exact absurd ⟨blkid, hmeets, e, hdata⟩ hnone
      | ok data => exact ⟨data, rfl⟩
    obtain ⟨e, he⟩ := hfails
    rw [readRange_ok hbs hfits hreads hwhole] at he
    cases he
  · rintro ⟨blkid, ⟨x, hx, hlt, rfl⟩, e, hfails⟩
    rw [readRange_eq hbs hfits]
    exact readRangeFrom_error hpos len offset (Nat.le_refl _) ⟨x, hx, hlt, e, hfails⟩
  · rintro blkid (hnone | hpast)
    · exact readBlkid_of_none hnone
    · exact readBlkid_of_none (locate_of_pastEnd hpast)

/-- An object of holes. -/
def holes : ObjectReader Id where
  reader :=
    { readBlock := fun _ => .error .noMember
      verify := fun _ _ => Verify.mismatch
      salvageDva := fun _ _ => .error .noMember }
  dnode :=
    { objectType := 19, indblkshift := 17, nlevels := 1, nblkptr := 1, bonusType := 0
      checksum := 2, compress := 2, flags := 0, datablkszsec := 1, bonuslen := 0, extraSlots := 0
      maxblkid := 1, used := 0, blkptr := [], bonus := [], spill := none }
  endian := .little

theorem readRange_holes : ∃ bytes, holes.readRange 500 100 = .ok bytes ∧ bytes.length = 100 ∧
    bytes = List.replicate 100 0 := by
  have hread := (readRange_spec holes (by decide) 500 100 (by decide)).1
    (fun blkid _ => ⟨_, readBlkid_of_none rfl⟩)
  obtain ⟨bytes, hok, hlen, hslice⟩ := hread
  refine ⟨bytes, hok, hlen, ?_⟩
  rw [hslice 2 (by decide)]
  decide +kernel

end Range

end ObjectReader

end Dmu
end ZvolRescue
