import ZvolRescue.Ondisk.Dnode

/-!
# Carved dnodes

Whether bytes could be a dnode, and whether a dnode could be the object that is looked for.
The first is about structure alone (`plausibleDnode`), the second is a profile of what is known
of the object (`Profile.misses`).
-/

namespace ZvolRescue
namespace Ondisk

/-- Why a candidate was rejected. -/
inductive Reject where
  | free
  | unknownType
  | indBlkShift
  | nLevels
  | nBlkPtr
  | dataBlkSz
  | bonusLen
  | checksumCode
  | compressCode
  | noBlocks
  | badBlkptr
  | dvaOutside
  | profileType
  | profileVolBlockSize
  | profileLevels
  | profileTxg
  | profileSize
  deriving DecidableEq, Repr

/-! ## Structure -/

/-- Object types that are followed. -/
def knownType (t : Nat) : Bool := t.testBit 7 ∨ t ≤ 60

/-- The largest block that is written. -/
def maxBlocksize : Nat := 2 ^ 24

/-- The four bytes that settle almost every slot. -/
def plausibleHead (slot : List UInt8) : Except Reject Unit :=
  let byte := fun i => (slot.getD i 0).toNat
  if slot.length < dnodeCoreSize then .error .free
  else if byte 0 = 0 then .error .free
  else if ¬ knownType (byte 0) then .error .unknownType
  else if ¬ (9 ≤ byte 1 ∧ byte 1 ≤ 17) then .error .indBlkShift
  else if ¬ (1 ≤ byte 2 ∧ byte 2 ≤ 7) then .error .nLevels
  else if ¬ (1 ≤ byte 3 ∧ byte 3 ≤ 3) then .error .nBlkPtr
  else .ok ()

/-- A block pointer that could have been written. -/
def plausibleBlkptr (b : BlkPtr) : Bool :=
  if b.isHole then false
  else if b.lsize = 0 ∨ b.lsize > maxBlocksize then false
  else if b.embedded then b.psize ≤ b.lsize
  else if b.psize = 0 ∨ b.psize > b.lsize then false
  else if b.birth = 0 then false
  else b.dva0.asize ≠ 0

/-- What is wrong with the pointers of a dnode, in order. -/
def plausiblePointers : List BlkPtr → Except Reject Unit
  | [] => .ok ()
  | b :: rest =>
    match b.checksum with
    | .unknown _ => .error .checksumCode
    | _ =>
      match b.compression with
      | .unknown _ => .error .compressCode
      | _ => if plausibleBlkptr b then plausiblePointers rest else .error .badBlkptr

/-- Bytes of the slots that a dnode claims. -/
def DnodePhys.slotBytes (d : DnodePhys) : Nat := dnodeSize * (1 + d.extraSlots)

/-- A dnode that could have been written. -/
def plausibleDnode (d : DnodePhys) : Except Reject Unit :=
  if d.isFree then .error .free
  else if ¬ knownType d.objectType then .error .unknownType
  else if ¬ (9 ≤ d.indblkshift ∧ d.indblkshift ≤ 17) then .error .indBlkShift
  else if ¬ (1 ≤ d.nlevels ∧ d.nlevels ≤ 7) then .error .nLevels
  else if ¬ (1 ≤ d.nblkptr ∧ d.nblkptr ≤ 3) then .error .nBlkPtr
  else
    let dbs := d.datablksz
    if dbs = 0 ∨ 2 ^ Nat.log2 dbs ≠ dbs ∨ dbs > maxBlocksize then .error .dataBlkSz
    else if dnodeCoreSize + d.nblkptr * bpSize + d.bonuslen > d.slotBytes then .error .bonusLen
    else
      let live := d.blkptr.filter (fun b => !b.isHole)
      if live = [] ∧ d.bonuslen = 0 then .error .noBlocks else plausiblePointers live

/-- What the test of a dnode asks of the four bytes at its head. -/
theorem head_of_plausibleDnode {d : DnodePhys} (h : plausibleDnode d = .ok ()) :
    d.objectType ≠ 0 ∧ knownType d.objectType = true ∧ (9 ≤ d.indblkshift ∧ d.indblkshift ≤ 17) ∧
      (1 ≤ d.nlevels ∧ d.nlevels ≤ 7) ∧ 1 ≤ d.nblkptr ∧ d.nblkptr ≤ 3 := by
  unfold plausibleDnode at h
  by_cases hfree : d.isFree = true
  · rw [if_pos hfree] at h
    cases h
  rw [if_neg hfree] at h
  by_cases htype : ¬ knownType d.objectType = true
  · rw [if_pos htype] at h
    cases h
  rw [if_neg htype] at h
  by_cases hshift : ¬ (9 ≤ d.indblkshift ∧ d.indblkshift ≤ 17)
  · rw [if_pos hshift] at h
    cases h
  rw [if_neg hshift] at h
  by_cases hlevels : ¬ (1 ≤ d.nlevels ∧ d.nlevels ≤ 7)
  · rw [if_pos hlevels] at h
    cases h
  rw [if_neg hlevels] at h
  by_cases hptrs : ¬ (1 ≤ d.nblkptr ∧ d.nblkptr ≤ 3)
  · rw [if_pos hptrs] at h
    cases h
  have hobject : d.objectType ≠ 0 := by
    intro hzero
    exact hfree (decide_eq_true hzero)
  exact ⟨hobject, not_not.mp htype, not_not.mp hshift, not_not.mp hlevels, not_not.mp hptrs⟩

/-- The first bytes of a dnode that could have been written pass the test of the head. -/
theorem plausibleHead_of_plausibleDnode {slot : List UInt8} {e : Endian} {d : DnodePhys}
    (hparse : DnodePhys.parse slot e = .ok d) (h : plausibleDnode d = .ok ()) :
    plausibleHead slot = .ok () := by
  obtain ⟨hlen, -, blkptr, spill, hd⟩ := DnodePhys.parse_inv hparse
  rw [DnodePhys.ofParts] at hd
  subst hd
  obtain ⟨hobject, htype, hshift, hlevels, hptrs⟩ := head_of_plausibleDnode h
  have hcore : ¬ slot.length < dnodeCoreSize := by
    have hsizes : dnodeCoreSize ≤ dnodeSize := by decide
    omega
  unfold plausibleHead
  rw [if_neg hcore]
  show (if (slot.getD 0 0).toNat = 0 then _ else _ : Except Reject Unit) = _
  rw [if_neg hobject, if_neg (not_not.mpr htype), if_neg (not_not.mpr hshift),
    if_neg (not_not.mpr hlevels), if_neg (not_not.mpr hptrs)]

/-- A slot whose only content is a bonus of one byte. -/
def bonusSlot : List UInt8 := [19, 17, 1, 1, 0, 0, 0, 0, 1, 0, 1, 0] ++ List.replicate 500 0

theorem plausibleHead_of_plausibleDnode_bonusSlot :
    ∃ d, DnodePhys.parse bonusSlot .little = .ok d ∧ plausibleDnode d = .ok () ∧
      plausibleHead bonusSlot = .ok () := by
  have hall : (DnodePhys.parse bonusSlot .little).toOption.map plausibleDnode =
      some (.ok ()) := by decide +kernel
  cases hparse : DnodePhys.parse bonusSlot .little with
  | error e =>
    rw [hparse] at hall
    cases hall
  | ok d =>
    rw [hparse] at hall
    have hd : plausibleDnode d = .ok () := Option.some.inj hall
    exact ⟨d, rfl, hd, plausibleHead_of_plausibleDnode hparse hd⟩

/-! ## Profile -/

/-- What is known of the object that is looked for; an absent field filters nothing. -/
structure Profile where
  dnodeType : Option Nat
  volblocksize : Option Nat
  levels : Option Nat
  /-- The window of births, inclusive. -/
  txg : Option (Nat × Nat)
  size : Option (Nat × Nat)
  deriving DecidableEq, Repr

namespace Profile

def none : Profile :=
  { dnodeType := .none, volblocksize := .none, levels := .none, txg := .none, size := .none }

/-- Size the dnode implies: one more block than the largest block id. -/
def impliedSize (d : DnodePhys) : Nat :=
  min (d.datablksz * min (d.maxblkid + 1) (2 ^ 64 - 1)) (2 ^ 64 - 1)

/-- The newest birth of the dnode's own pointers. -/
def birth (d : DnodePhys) : Nat :=
  ((d.blkptr.filter (fun b => !b.isHole)).map BlkPtr.birth).foldl max 0

/-- The rejection of a field that is asked for and is another. -/
def missOf (asked : Option Nat) (is : Nat) (r : Reject) : List Reject :=
  match asked with
  | some v => if is ≠ v then [r] else []
  | .none => []

/-- The rejection of a field outside the window that is asked for. -/
def missOutside (asked : Option (Nat × Nat)) (is : Nat) (r : Reject) : List Reject :=
  match asked with
  | some (low, high) => if is < low ∨ is > high then [r] else []
  | .none => []

/-- The fields of the profile that a dnode fails. -/
def misses (p : Profile) (d : DnodePhys) : List Reject :=
  missOf p.dnodeType d.objectType .profileType ++
    missOf p.volblocksize d.datablksz .profileVolBlockSize ++
    missOf p.levels d.nlevels .profileLevels ++
    missOutside p.txg (birth d) .profileTxg ++
    missOutside p.size (impliedSize d) .profileSize

end Profile

/-! ## What a dnode is read from -/

section Prefix

variable {buf : List UInt8} {n : Nat}

theorem getD_take {i : Nat} (h : i < n) : (buf.take n).getD i 0 = buf.getD i 0 := by
  rw [List.getD_eq_getElem?_getD, List.getElem?_take, if_pos h, List.getD_eq_getElem?_getD]

theorem drop_take_take {at_ len : Nat} (h : at_ + len ≤ n) :
    ((buf.take n).drop at_).take len = (buf.drop at_).take len := by
  rw [List.drop_take, List.take_take, Nat.min_eq_left (by omega)]

theorem u16At_of_take {e : Endian} {at_ : Nat} (h : at_ + 1 < n) :
    e.u16At (buf.take n) at_ = e.u16At buf at_ := by
  cases e <;> simp only [Endian.u16At, getD_take (Nat.lt_of_succ_lt h), getD_take h]

theorem mapM_congr {α β ε : Type} {f g : α → Except ε β} {l : List α} (h : ∀ a ∈ l, f a = g a) :
    l.mapM f = l.mapM g := by
  induction l with
  | nil => rfl
  | cons a l ih =>
    rw [List.mapM_cons, List.mapM_cons, h a List.mem_cons_self,
      ih (fun b hb => h b (List.mem_cons_of_mem _ hb))]

theorem plausibleHead_take (h : dnodeCoreSize ≤ n) (hn : n ≤ buf.length) :
    plausibleHead (buf.take n) = plausibleHead buf := by
  have hcore : dnodeCoreSize = 64 := rfl
  have hshort : ¬ (buf.take n).length < dnodeCoreSize := by
    rw [List.length_take]
    omega
  have hlong : ¬ buf.length < dnodeCoreSize := by omega
  have hbyte : ∀ i, i < 64 → (buf.take n).getD i 0 = buf.getD i 0 :=
    fun i hi => getD_take (by omega)
  simp (disch := decide) only [plausibleHead, if_neg hshort, if_neg hlong, hbyte]

namespace DnodePhys

/-- Bytes of the slots that the dnode at the start of `buf` claims. -/
def claimed (buf : List UInt8) : Nat := dnodeSize * (1 + (buf.getD 12 0).toNat)

theorem claimed_take (h : dnodeSize ≤ n) : claimed (buf.take n) = claimed buf := by
  have hsize : dnodeSize = 512 := rfl
  rw [claimed, claimed, getD_take (by omega)]

theorem dnodeSize_le_claimed : dnodeSize ≤ claimed buf := Nat.le_mul_of_pos_right _ (by omega)

/-- A dnode of more slots than there are is not read. -/
theorem parse_of_lt {e : Endian} (h : buf.length < claimed buf) : ∃ err, parse buf e = .error err := by
  rw [parse]
  by_cases hslot : buf.length < dnodeSize
  · exact ⟨_, if_pos hslot⟩
  · rw [if_neg hslot]
    exact ⟨_, if_pos h⟩

theorem slotBytes_of_parse {e : Endian} {d : DnodePhys} (h : parse buf e = .ok d) :
    d.slotBytes = claimed buf ∧ claimed buf ≤ buf.length := by
  obtain ⟨-, hclaimed, blkptr, spill, rfl⟩ := parse_inv h
  exact ⟨rfl, hclaimed⟩

/-- A dnode is read from the slots that it claims. -/
theorem parse_take {e : Endian} (h : claimed buf ≤ n) (hn : n ≤ buf.length) :
    parse (buf.take n) e = parse buf e := by
  have hsize : dnodeSize = 512 := rfl
  have hclaims : dnodeSize ≤ claimed buf := dnodeSize_le_claimed
  have hbp : bpSize = 128 := rfl
  have hcore : dnodeCoreSize = 64 := rfl
  have hbyte : ∀ i, i ≤ 12 → (buf.take n).getD i 0 = buf.getD i 0 := fun i hi => getD_take (by omega)
  have hu16 : ∀ at_, at_ ≤ 10 → e.u16At (buf.take n) at_ = e.u16At buf at_ :=
    fun at_ hat => u16At_of_take (by omega)
  have hu64 : ∀ at_, at_ ≤ 24 → e.u64At (buf.take n) at_ = e.u64At buf at_ :=
    fun at_ hat => u64At_take e (by omega) hn
  have hshort : ¬ (buf.take n).length < dnodeSize := by
    rw [List.length_take]
    omega
  have hshort' : ¬ buf.length < dnodeSize := by omega
  have hclaim : ¬ (buf.take n).length < dnodeSize * (1 + (buf.getD 12 0).toNat) := by
    rw [List.length_take]
    exact Nat.not_lt.mpr (Nat.le_min.mpr ⟨h, h.trans hn⟩)
  have hclaim' : ¬ buf.length < dnodeSize * (1 + (buf.getD 12 0).toNat) :=
    Nat.not_lt.mpr (h.trans hn)
  have hptrs : (List.range (min (buf.getD 3 0).toNat 3)).mapM (fun i =>
      BlkPtr.parse (((buf.take n).drop (dnodeCoreSize + i * bpSize)).take bpSize) e) =
        (List.range (min (buf.getD 3 0).toNat 3)).mapM (fun i =>
          BlkPtr.parse ((buf.drop (dnodeCoreSize + i * bpSize)).take bpSize) e) := by
    apply mapM_congr
    intro i hi
    have hlt := List.mem_range.mp hi
    rw [drop_take_take (by rw [hbp]; omega)]
  have hspill : ∀ flags, parseSpill (buf.take n) e flags (spillStart flags (claimed buf)) =
      parseSpill buf e flags (spillStart flags (claimed buf)) := by
    intro flags
    rw [parseSpill, parseSpill, spillStart]
    split
    · rfl
    · rw [drop_take_take (by omega)]
  have hstart : ∀ flags, spillStart flags (claimed buf) ≤ claimed buf := by
    intro flags
    rw [spillStart]
    split
    · exact le_refl _
    · exact Nat.sub_le _ _
  rw [claimed] at hspill hstart h
  rw [parse, parse, if_neg hshort, if_neg hshort']
  simp (disch := decide) only [hbyte, hu16, hu64, if_neg hclaim, if_neg hclaim', hptrs, hspill]
  split
  · rfl
  · split
    · rfl
    · split
      · rfl
      · rename_i hbonus
        have hroom := hstart (buf.getD 7 0).toNat
        rw [drop_take_take (by omega)]

end DnodePhys

end Prefix

end Ondisk
end ZvolRescue
