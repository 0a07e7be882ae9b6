import Mathlib.Data.Nat.Digits.Defs
import ZvolRescue.Dmu.Object

/-!
# The walk to a block

The block ids of an object are numbers in base `2 ^ epbs`: the first digits choose a pointer of the
dnode, and each other one a slot of an indirect block.  The parser accepts dnodes for which the
shifts do not fit 64 bits, or the offset of a slot does not; `locate_sound_iff` says which they are.
-/

namespace ZvolRescue
namespace Dmu

open Lib Ondisk Zio

/-! ## The path to a block -/

section Path

/-- The slots on the way down, from the highest level. -/
def slots (base blkid : Nat) : (levels : Nat) → List Nat
  | 0 => []
  | level + 1 => blkid / base ^ level % base :: slots base blkid level

theorem slots_lt {base : Nat} (hbase : 0 < base) (blkid levels : Nat) :
    ∀ s ∈ slots base blkid levels, s < base := by
  induction levels with
  | zero => simp [slots]
  | succ level ih =>
    intro s hs
    rcases List.mem_cons.mp hs with rfl | hs
    · exact Nat.mod_lt _ hbase
    · exact ih s hs

theorem slots_length (base blkid levels : Nat) : (slots base blkid levels).length = levels := by
  induction levels with
  | zero => rfl
  | succ level ih => rw [slots, List.length_cons, ih]

/-- They are the digits of the block id. -/
theorem ofDigits_slots (base blkid levels : Nat) :
    Nat.ofDigits base (slots base blkid levels).reverse = blkid % base ^ levels := by
  induction levels with
  | zero => simp [slots, Nat.mod_one]
  | succ level ih =>
    rw [slots, List.reverse_cons, Nat.ofDigits_append, ih, List.length_reverse, slots_length,
      Nat.ofDigits_singleton, Nat.pow_succ, Nat.mod_mul]

/-- The pointer of the dnode, and the slots below it. -/
def pathTo (base blkid levels : Nat) : List Nat :=
  blkid / base ^ levels :: slots base blkid levels

theorem ofDigits_pathTo (base blkid levels : Nat) :
    Nat.ofDigits base (pathTo base blkid levels).reverse = blkid := by
  rw [pathTo, List.reverse_cons, Nat.ofDigits_append, ofDigits_slots, List.length_reverse,
    slots_length, Nat.ofDigits_singleton, Nat.mod_add_div]

/-- No two block ids have one path. -/
theorem pathTo_injective (base levels : Nat) : Function.Injective (pathTo base · levels) := by
  intro a b h
  have hdigits := congrArg (fun l => Nat.ofDigits base l.reverse) h
  simpa only [ofDigits_pathTo] using hdigits

end Path

/-! ## The exact walk -/

section Follow

variable {m : Type → Type} [Monad m] (reader : PoolReader m)

/-- From a pointer down through these slots. -/
def follow : List Nat → BlkPtr → m (Except ReadError (Option BlkPtr))
  | [], bp => pure (.ok (if bp.isHole then none else some bp))
  | slot :: rest, bp =>
    if bp.isHole then pure (.ok none)
    else do
      match ← reader.readBlock bp with
      | .error e => pure (.error e)
      | .ok block =>
        if slot * bpSize + bpSize ≤ block.data.length then
          match BlkPtr.parse ((block.data.drop (slot * bpSize)).take bpSize) bp.endian with
          | .error e => pure (.error (.ofParse e))
          | .ok child => follow rest child
        else pure (.error (.io s!"indirect block too small for index {slot}"))

theorem follow_hole {bp : BlkPtr} (h : bp.isHole = true) (path : List Nat) :
    follow reader path bp = pure (.ok none) := by
  cases path with
  | nil => rw [follow, if_pos h]
  | cons slot rest => rw [follow, if_pos h]

/-- The way goes on from the pointer that the first slots lead to. -/
theorem follow_append [LawfulMonad m] (rest : List Nat) (path : List Nat) : ∀ bp : BlkPtr,
    follow reader (path ++ rest) bp = (do
      match ← follow reader path bp with
      | .error e => pure (.error e)
      | .ok none => pure (.ok none)
      | .ok (some bp) => follow reader rest bp) := by
  induction path with
  | nil =>
    intro bp
    by_cases hhole : bp.isHole = true
    · simp [follow, hhole, follow_hole reader hhole]
    · simp [follow, hhole]
  | cons slot path ih =>
    intro bp
    rw [List.cons_append, follow, follow]
    by_cases hhole : bp.isHole = true
    · simp [hhole]
    · simp only [if_neg hhole, bind_assoc]
      refine bind_congr (fun result => ?_)
      cases result with
      | error e => simp
      | ok block =>
        simp only
        split
        · split
          · simp
          · exact ih _
        · simp

/-- A hole on the way is the end of it. -/
theorem follow_below_hole [LawfulMonad m] {path : List Nat} {bp : BlkPtr}
    (h : follow reader path bp = pure (.ok none)) (rest : List Nat) :
    follow reader (path ++ rest) bp = pure (.ok none) := by
  rw [follow_append, h, pure_bind]

end Follow

/-! ## The walk with every check -/

/-- An operation outside its range. -/
inductive Fault where
  /-- A shift by 64 or more. -/
  | shift
  | underflow
  /-- An index out of bounds. -/
  | index
  deriving DecidableEq, Repr

def checkedShr (a s : Nat) : Except Fault Nat := if s < 64 then .ok (a / 2 ^ s) else .error .shift

def checkedShl (a s : Nat) : Except Fault Nat :=
  if s < 64 then .ok (a * 2 ^ s % word) else .error .shift

def checkedSub (a b : Nat) : Except Fault Nat := if b ≤ a then .ok (a - b) else .error .underflow

namespace ObjectReader

section Slots

variable {m : Type → Type} (obj : ObjectReader m)

/-- The shifts of one level stay within a word. -/
def Shifts (level : Nat) : Prop := obj.epbs * level < 64 ∧ obj.epbs < 64

/-- Where they do, a slot is a digit. -/
theorem index_eq {blkid level : Nat} (h : obj.Shifts level) :
    shr64 blkid (obj.epbs * level) % shl64 1 obj.epbs =
      blkid / 2 ^ (obj.epbs * level) % 2 ^ obj.epbs := by
  have hone : 1 * 2 ^ obj.epbs < word := by
    rw [one_mul]
    exact Nat.pow_lt_pow_right (by decide) h.2
  rw [shr64_of_lt h.1, shl64_of_lt h.2 hone, one_mul]

end Slots

section Checked

variable (obj : ObjectReader Id)

/-- The slot of an indirect block: the bits of `blkid` at a level. -/
def checkedIndex (blkid level : Nat) : Except Fault Nat := do
  let below ← checkedSub level 1
  let shifted ← checkedShr blkid (obj.epbs * below)
  let one ← checkedShl 1 obj.epbs
  let mask ← checkedSub one 1
  pure (shifted &&& mask)

def locateFromChecked (blkid : Nat) :
    (level : Nat) → BlkPtr → Except Fault (Except ReadError (Option BlkPtr))
  | 0, bp => .ok (.ok (if bp.isHole then none else some bp))
  | level + 1, bp =>
    if bp.isHole then .ok (.ok none)
    else
      match (obj.reader.readBlock bp).run with
      | .error e => .ok (.error e)
      | .ok block =>
        match obj.checkedIndex blkid (level + 1) with
        | .error fault => .error fault
        | .ok index =>
          let at_ := mul64 index bpSize
          if at_ + bpSize ≤ block.data.length then
            match BlkPtr.parse ((block.data.drop at_).take bpSize) bp.endian with
            | .error e => .ok (.error (.ofParse e))
            | .ok child => locateFromChecked blkid level child
          else .ok (.error (.io s!"indirect block too small for index {index}"))

/-- The pointer of the dnode, below `top` levels. -/
def checkedTop (blkid top : Nat) : Except Fault Nat :=
  let topShift := min (obj.epbs * top) (2 ^ 32 - 1)
  if topShift ≥ 64 then .ok 0 else checkedShr blkid topShift

/-- `locate`, with a fault where a shift, a difference or an index is out of its range. -/
def locateChecked (blkid : Nat) : Except Fault (Except ReadError (Option BlkPtr)) :=
  if obj.dnode.nlevels = 0 then .ok (.ok none)
  else do
    let top ← checkedSub obj.dnode.nlevels 1
    let topIndex ← obj.checkedTop blkid top
    if topIndex ≥ obj.dnode.blkptr.length then .ok (.ok none)
    else
      match obj.dnode.blkptr[topIndex]? with
      | none => .error .index
      | some bp => obj.locateFromChecked blkid top bp

theorem checkedIndex_ok {blkid level : Nat} (h : obj.Shifts level) :
    obj.checkedIndex blkid (level + 1) = .ok (blkid / 2 ^ (obj.epbs * level) % 2 ^ obj.epbs) := by
  have hone : 2 ^ obj.epbs % word = 2 ^ obj.epbs :=
    Nat.mod_eq_of_lt (Nat.pow_lt_pow_right (by decide) h.2)
  have hpos : 1 ≤ 2 ^ obj.epbs := Nat.one_le_two_pow
  simp [checkedIndex, checkedSub, checkedShr, checkedShl, h.1, h.2, hone, hpos,
    Nat.and_two_pow_sub_one_eq_mod, bind, Except.bind, pure, Except.pure]

theorem checkedIndex_fault {blkid level : Nat} (h : ¬ obj.Shifts level) :
    obj.checkedIndex blkid (level + 1) = .error .shift := by
  by_cases hshift : obj.epbs * level < 64
  · have hepbs : ¬ obj.epbs < 64 := fun hepbs => h ⟨hshift, hepbs⟩
    simp [checkedIndex, checkedSub, checkedShr, checkedShl, hshift, hepbs, bind, Except.bind]
  · simp [checkedIndex, checkedSub, checkedShr, hshift, bind, Except.bind]

/-- The walk with every check is the walk, where no check fails. -/
theorem locateFromChecked_run (blkid level : Nat) : ∀ (bp : BlkPtr) (r),
    obj.locateFromChecked blkid level bp = .ok r → (obj.locateFrom blkid level bp).run = r := by
  induction level with
  | zero =>
    intro bp r h
    cases h
    rfl
  | succ level ih =>
    intro bp r h
    rw [locateFromChecked] at h
    rw [locateFrom]
    by_cases hhole : bp.isHole = true
    · rw [if_pos hhole] at h ⊢
      cases h
      rfl
    · rw [if_neg hhole] at h ⊢
      simp only [Id.run_bind]
      cases hread : (obj.reader.readBlock bp).run with
      | error e =>
        rw [hread] at h
        cases h
        rfl
      | ok block =>
        rw [hread] at h
        by_cases hshifts : obj.Shifts level
        · simp only [obj.checkedIndex_ok hshifts] at h
          simp only [obj.index_eq hshifts]
          split at h
          · rename_i hfits
            rw [if_pos hfits]
            generalize BlkPtr.parse _ bp.endian = parsed at h ⊢
            cases parsed with
            | error e =>
              cases h
              rfl
            | ok child => exact ih child r h
          · rename_i hfits
            rw [if_neg hfits]
            cases h
            rfl
        · simp only [obj.checkedIndex_fault hshifts] at h
          cases h

/-- No check fails where the shifts of every level below stay within a word. -/
theorem locateFromChecked_ok (blkid level : Nat) : ∀ bp : BlkPtr,
    (∀ below < level, obj.Shifts below) → ∃ r, obj.locateFromChecked blkid level bp = .ok r := by
  induction level with
  | zero =>
    intro bp _
    exact ⟨_, rfl⟩
  | succ level ih =>
    intro bp h
    rw [locateFromChecked]
    by_cases hhole : bp.isHole = true
    · rw [if_pos hhole]
      exact ⟨_, rfl⟩
    · rw [if_neg hhole]
      cases (obj.reader.readBlock bp).run with
      | error e => exact ⟨_, rfl⟩
      | ok block =>
        simp only [obj.checkedIndex_ok (h level (Nat.lt_succ_self level))]
        split
        · split
          · exact ⟨_, rfl⟩
          · exact ih _ (fun below hlt => h below (Nat.lt_succ_of_lt hlt))
        · exact ⟨_, rfl⟩

/-- A check fails at the first block that is read, where its shifts do not. -/
theorem locateFromChecked_fault {blkid level : Nat} {bp : BlkPtr} (hhole : bp.isHole = false)
    {block : Block} (hread : (obj.reader.readBlock bp).run = .ok block)
    (h : ¬ obj.Shifts level) : obj.locateFromChecked blkid (level + 1) bp = .error .shift := by
  rw [locateFromChecked, if_neg (by rw [hhole]; exact Bool.false_ne_true), hread]
  simp only [obj.checkedIndex_fault h]

end Checked

/-! ## Which dnodes are walked as they should be -/

/-- The pointer of the dnode that a block id leads to. -/
def topIndex (d : DnodePhys) (blkid : Nat) : Nat :=
  let topShift := min ((d.indblkshift - 7) * (d.nlevels - 1)) (2 ^ 32 - 1)
  if topShift ≥ 64 then 0 else shr64 blkid topShift

section Exact

variable {m : Type → Type} [Monad m] (obj : ObjectReader m)

/-- The shift of the top level stays within a word. -/
def Fits {m : Type → Type} (obj : ObjectReader m) : Prop :=
  obj.epbs * (obj.dnode.nlevels - 1) < 64

/-- The blocks that the tree has pointers for. -/
def capacity {m : Type → Type} (obj : ObjectReader m) : Nat :=
  if obj.dnode.nlevels = 0 then 0
  else obj.dnode.blkptr.length * (2 ^ obj.epbs) ^ (obj.dnode.nlevels - 1)

/-- Below the capacity a block is found by following its digits, and nowhere else; beyond it, or
below a hole, there is none. -/
structure Exact : Prop where
  below : ∀ blkid < word, blkid < obj.capacity →
    ∃ bp, obj.dnode.blkptr[blkid / (2 ^ obj.epbs) ^ (obj.dnode.nlevels - 1)]? = some bp ∧
      obj.locate blkid =
        follow obj.reader (slots (2 ^ obj.epbs) blkid (obj.dnode.nlevels - 1)) bp ∧
      ∀ level, follow obj.reader
          ((slots (2 ^ obj.epbs) blkid (obj.dnode.nlevels - 1)).take level) bp = pure (.ok none) →
        obj.locate blkid = pure (.ok none)
  digits : ∀ blkid,
    Nat.ofDigits (2 ^ obj.epbs) (pathTo (2 ^ obj.epbs) blkid (obj.dnode.nlevels - 1)).reverse =
        blkid ∧
      ∀ s ∈ slots (2 ^ obj.epbs) blkid (obj.dnode.nlevels - 1), s < 2 ^ obj.epbs
  distinct : Function.Injective (pathTo (2 ^ obj.epbs) · (obj.dnode.nlevels - 1))
  beyond : ∀ blkid < word, obj.capacity ≤ blkid → obj.locate blkid = pure (.ok none)

/-- The offset of any slot fits a word. -/
theorem locateFrom_eq_follow (hepbs : obj.epbs ≤ 57) (blkid level : Nat) : ∀ bp : BlkPtr,
    (∀ below < level, obj.Shifts below) →
      obj.locateFrom blkid level bp = follow obj.reader (slots (2 ^ obj.epbs) blkid level) bp := by
  induction level with
  | zero =>
    intro bp _
    rfl
  | succ level ih =>
    intro bp h
    rw [locateFrom, slots, follow]
    by_cases hhole : bp.isHole = true
    · rw [if_pos hhole, if_pos hhole]
    · rw [if_neg hhole, if_neg hhole]
      have hindex : shr64 blkid (obj.epbs * level) % shl64 1 obj.epbs =
          blkid / (2 ^ obj.epbs) ^ level % 2 ^ obj.epbs := by
        rw [← Nat.pow_mul]
        exact obj.index_eq (h level (Nat.lt_succ_self level))
      have hslot : blkid / (2 ^ obj.epbs) ^ level % 2 ^ obj.epbs < 2 ^ 57 :=
        (Nat.mod_lt _ (Nat.two_pow_pos _)).trans_le (Nat.pow_le_pow_right (by decide) hepbs)
      have hat : mul64 (blkid / (2 ^ obj.epbs) ^ level % 2 ^ obj.epbs) bpSize =
          blkid / (2 ^ obj.epbs) ^ level % 2 ^ obj.epbs * bpSize := by
        refine mul64_of_lt ?_
        show _ * 128 < 2 ^ 64
        omega
      simp only [hindex, hat]
      refine bind_congr (fun result => ?_)
      cases result with
      | error e => rfl
      | ok block =>
        simp only
        split
        · cases BlkPtr.parse ((block.data.drop
              (blkid / (2 ^ obj.epbs) ^ level % 2 ^ obj.epbs * bpSize)).take bpSize) bp.endian with
          | error e => rfl
          | ok child => exact ih child (fun below hlt => h below (Nat.lt_succ_of_lt hlt))
        · rfl

omit [Monad m] in
theorem topIndex_eq (h : obj.Fits) (blkid : Nat) :
    topIndex obj.dnode blkid = blkid / (2 ^ obj.epbs) ^ (obj.dnode.nlevels - 1) := by
  have hshift : (obj.dnode.indblkshift - 7) * (obj.dnode.nlevels - 1) < 64 := h
  simp only [topIndex]
  rw [Nat.min_eq_left (by omega), if_neg (by omega), shr64_of_lt hshift, ← Nat.pow_mul]
  rfl

theorem locate_eq {level : Nat} (hlevels : obj.dnode.nlevels = level + 1) (blkid : Nat) :
    obj.locate blkid =
      match obj.dnode.blkptr[topIndex obj.dnode blkid]? with
      | none => pure (.ok none)
      | some bp => obj.locateFrom blkid level bp := by
  rw [locate, topIndex, hlevels]
  rfl

/-- Where shifts and offsets fit a word, or the pointers are holes, the walk is exact. -/
theorem exact_of [LawfulMonad m] (h : obj.Fits)
    (hwalk : ∀ (i : Nat) (bp : BlkPtr) (blkid : Nat), blkid < word →
      i = blkid / (2 ^ obj.epbs) ^ (obj.dnode.nlevels - 1) → obj.dnode.blkptr[i]? = some bp →
        obj.locateFrom blkid (obj.dnode.nlevels - 1) bp =
          follow obj.reader (slots (2 ^ obj.epbs) blkid (obj.dnode.nlevels - 1)) bp) :
    obj.Exact where
  below blkid hword hblkid := by
    cases hlevels : obj.dnode.nlevels with
    | zero =>
      rw [capacity, if_pos hlevels] at hblkid
      cases hblkid
    | succ level =>
      rw [capacity, if_neg (by omega), hlevels, Nat.add_sub_cancel] at hblkid
      rw [hlevels, Nat.add_sub_cancel] at hwalk
      have htop : blkid / (2 ^ obj.epbs) ^ level < obj.dnode.blkptr.length :=
        Nat.div_lt_of_lt_mul (by rw [Nat.mul_comm]; exact hblkid)
      obtain ⟨bp, hbp⟩ : ∃ bp, obj.dnode.blkptr[blkid / (2 ^ obj.epbs) ^ level]? = some bp :=
        ⟨_, List.getElem?_eq_getElem htop⟩
      have hlocate : obj.locate blkid =
          follow obj.reader (slots (2 ^ obj.epbs) blkid level) bp := by
        rw [obj.locate_eq hlevels, obj.topIndex_eq h, hlevels, Nat.add_sub_cancel, hbp]
        exact hwalk _ _ blkid hword rfl hbp
      refine ⟨bp, hbp, hlocate, fun depth hhole => ?_⟩
      rw [hlocate]
      have hbelow := follow_below_hole obj.reader hhole
        ((slots (2 ^ obj.epbs) blkid level).drop depth)
      rw [Nat.add_sub_cancel, List.take_append_drop] at hbelow
      exact hbelow
  digits blkid := ⟨ofDigits_pathTo _ _ _, slots_lt (Nat.two_pow_pos _) _ _⟩
  distinct := pathTo_injective _ _
  beyond blkid _ hblkid := by
    cases hlevels : obj.dnode.nlevels with
    | zero =>
      rw [locate, hlevels]
    | succ level =>
      rw [capacity, if_neg (by omega), hlevels, Nat.add_sub_cancel] at hblkid
      have htop : obj.dnode.blkptr.length ≤ blkid / (2 ^ obj.epbs) ^ level :=
        (Nat.le_div_iff_mul_le (Nat.pow_pos (Nat.two_pow_pos _))).mpr hblkid
      rw [obj.locate_eq hlevels, obj.topIndex_eq h, hlevels, Nat.add_sub_cancel,
        List.getElem?_eq_none htop]

end Exact

/-- A dnode whose blocks are found where they are, without an operation that is out of range. -/
structure Located (d : DnodePhys) : Prop where
  exact : ∀ (m : Type → Type) [Monad m] [LawfulMonad m] (obj : ObjectReader m),
    obj.dnode = d → obj.Fits → obj.Exact
  checked : ∀ obj : ObjectReader Id, obj.dnode = d → ∀ blkid < word,
    ∃ r, obj.locateChecked blkid = .ok r ∧ (obj.locate blkid).run = r

/-- What the shifts of the levels below the top, and the offsets of slots, need to fit a word. -/
def Narrow (d : DnodePhys) : Prop :=
  (d.nlevels = 2 → d.indblkshift - 7 ≤ 57) ∧ (d.indblkshift - 7) * (d.nlevels - 2) < 64

/-- A block id leads to this pointer of the dnode. -/
def Selectable (d : DnodePhys) (i : Nat) : Prop :=
  let topShift := (d.indblkshift - 7) * (d.nlevels - 1)
  if topShift < 64 then i < 2 ^ (64 - topShift) else i = 0

/-- The walk reads no indirect block, or those it reads are narrow enough. -/
def Walkable (d : DnodePhys) : Prop :=
  d.nlevels ≤ 1 ∨ Narrow d ∨
    ∀ i bp, d.blkptr[i]? = some bp → Selectable d i → bp.isHole = true

/-! ### The dnodes that are -/

theorem topIndex_selectable {d : DnodePhys} {blkid : Nat} (h : blkid < word) :
    Selectable d (topIndex d blkid) := by
  rw [Selectable, topIndex]
  by_cases hshift : (d.indblkshift - 7) * (d.nlevels - 1) < 64
  · simp only [if_pos hshift]
    rw [Nat.min_eq_left (by omega), if_neg (by omega), shr64_of_lt hshift,
      Nat.div_lt_iff_lt_mul (Nat.two_pow_pos _), ← Nat.pow_add]
    rw [Nat.sub_add_cancel (by omega)]
    exact h
  · simp only [if_neg hshift]
    rw [if_pos (by omega)]

/-- A selectable pointer is that of some block id, whose digits below are any others. -/
theorem selectable_topIndex {d : DnodePhys} {i : Nat} (low : Nat) (h : Selectable d i)
    (hlow : low < 2 ^ ((d.indblkshift - 7) * (d.nlevels - 1))) (hword : low < word) :
    ∃ blkid < word, topIndex d blkid = i ∧
      ((d.indblkshift - 7) * (d.nlevels - 1) < 64 →
        blkid = i * 2 ^ ((d.indblkshift - 7) * (d.nlevels - 1)) + low) := by
  by_cases hshift : (d.indblkshift - 7) * (d.nlevels - 1) < 64
  · rw [Selectable, if_pos hshift] at h
    refine ⟨i * 2 ^ ((d.indblkshift - 7) * (d.nlevels - 1)) + low, ?_, ?_, fun _ => rfl⟩
    · have hsplit : word = 2 ^ (64 - (d.indblkshift - 7) * (d.nlevels - 1)) *
          2 ^ ((d.indblkshift - 7) * (d.nlevels - 1)) := by
        rw [← Nat.pow_add, Nat.sub_add_cancel (by omega)]
        rfl
      rw [hsplit]
      calc _ < i * 2 ^ ((d.indblkshift - 7) * (d.nlevels - 1)) +
            2 ^ ((d.indblkshift - 7) * (d.nlevels - 1)) := Nat.add_lt_add_left hlow _
        _ = (i + 1) * 2 ^ ((d.indblkshift - 7) * (d.nlevels - 1)) := by ring
        _ ≤ _ := Nat.mul_le_mul_right _ h
    · simp only [topIndex]
      rw [Nat.min_eq_left (by omega), if_neg (by omega), shr64_of_lt hshift, Nat.add_comm,
        Nat.add_mul_div_right _ _ (Nat.two_pow_pos _), Nat.div_eq_of_lt hlow, Nat.zero_add]
  · rw [Selectable, if_neg hshift] at h
    refine ⟨low, hword, ?_, fun hlt => absurd hlt hshift⟩
    simp only [topIndex]
    rw [if_pos (by omega), h]

theorem locateChecked_eq (obj : ObjectReader Id) {level : Nat}
    (hlevels : obj.dnode.nlevels = level + 1) (blkid : Nat) :
    obj.locateChecked blkid =
      match obj.dnode.blkptr[topIndex obj.dnode blkid]? with
      | none => .ok (.ok none)
      | some bp => obj.locateFromChecked blkid level bp := by
  have hsub : checkedSub obj.dnode.nlevels 1 = .ok level := by
    rw [hlevels, checkedSub, if_pos (by omega)]
    rfl
  have htop : obj.checkedTop blkid level = .ok (topIndex obj.dnode blkid) := by
    rw [checkedTop, topIndex, hlevels]
    show _ = Except.ok (if min (obj.epbs * level) (2 ^ 32 - 1) ≥ 64 then 0
      else shr64 blkid (min (obj.epbs * level) (2 ^ 32 - 1)))
    by_cases hshift : min (obj.epbs * level) (2 ^ 32 - 1) ≥ 64
    · rw [if_pos hshift, if_pos hshift]
    · rw [if_neg hshift, if_neg hshift, checkedShr, if_pos (by omega), shr64_of_lt (by omega)]
  rw [locateChecked, if_neg (by omega), hsub]
  show (obj.checkedTop blkid level >>= _) = _
  rw [htop]
  show (if topIndex obj.dnode blkid ≥ obj.dnode.blkptr.length then _ else _) = _
  by_cases hlen : topIndex obj.dnode blkid ≥ obj.dnode.blkptr.length
  · rw [if_pos hlen, List.getElem?_eq_none hlen]
  · rw [if_neg hlen]
    obtain ⟨bp, hbp⟩ : ∃ bp, obj.dnode.blkptr[topIndex obj.dnode blkid]? = some bp :=
      ⟨_, List.getElem?_eq_getElem (not_le.mp hlen)⟩
    simp only [hbp]

/-- No check fails, and the result is that of the walk. -/
theorem checked_of (obj : ObjectReader Id) {blkid : Nat} (hblkid : blkid < word)
    (h : ∀ level, obj.dnode.nlevels = level + 1 → ∀ i bp, obj.dnode.blkptr[i]? = some bp →
      Selectable obj.dnode i → ∃ r, obj.locateFromChecked blkid level bp = .ok r) :
    ∃ r, obj.locateChecked blkid = .ok r ∧ (obj.locate blkid).run = r := by
  cases hlevels : obj.dnode.nlevels with
  | zero => exact ⟨.ok none, by rw [locateChecked, if_pos hlevels], by rw [locate, hlevels]; rfl⟩
  | succ level =>
    rw [obj.locateChecked_eq hlevels, obj.locate_eq hlevels]
    cases hbp : obj.dnode.blkptr[topIndex obj.dnode blkid]? with
    | none => exact ⟨_, rfl, rfl⟩
    | some bp =>
      obtain ⟨r, hr⟩ := h level hlevels _ bp hbp (topIndex_selectable hblkid)
      exact ⟨r, hr, obj.locateFromChecked_run blkid level bp r hr⟩

theorem Narrow.shifts {m : Type → Type} {obj : ObjectReader m} (h : Narrow obj.dnode) {level : Nat}
    (hlevels : obj.dnode.nlevels = level + 1) : ∀ below < level, obj.Shifts below := by
  intro below hbelow
  obtain ⟨htwo, hrest⟩ := h
  have hle : below ≤ obj.dnode.nlevels - 2 := by omega
  have hshift : obj.epbs * below ≤ (obj.dnode.indblkshift - 7) * (obj.dnode.nlevels - 2) :=
    Nat.mul_le_mul_left _ hle
  refine ⟨by omega, ?_⟩
  by_cases hlevel : obj.dnode.nlevels = 2
  · have hepbs : obj.epbs ≤ 57 := htwo hlevel
    omega
  · have hone : (obj.dnode.indblkshift - 7) * 1 ≤
        (obj.dnode.indblkshift - 7) * (obj.dnode.nlevels - 2) :=
      Nat.mul_le_mul_left _ (by omega)
    show obj.dnode.indblkshift - 7 < 64
    omega

theorem Narrow.epbs {m : Type → Type} {obj : ObjectReader m} (h : Narrow obj.dnode)
    (hfits : obj.Fits) (hlevels : 2 ≤ obj.dnode.nlevels) : obj.epbs ≤ 57 := by
  by_cases hlevel : obj.dnode.nlevels = 2
  · exact h.1 hlevel
  · have htwice : obj.epbs * 2 ≤ obj.epbs * (obj.dnode.nlevels - 1) :=
      Nat.mul_le_mul_left _ (by omega)
    have hfits : obj.epbs * (obj.dnode.nlevels - 1) < 64 := hfits
    omega

theorem Walkable.located {d : DnodePhys} (h : Walkable d) : Located d where
  exact m _ _ obj hd hfits := by
    subst hd
    refine obj.exact_of hfits (fun i bp blkid hword hi hbp => ?_)
    rcases h with hlevels | hnarrow | hholes
    · rw [Nat.sub_eq_zero_of_le hlevels]
      rfl
    · cases hlevels : obj.dnode.nlevels with
      | zero => rfl
      | succ level =>
        rw [Nat.add_sub_cancel]
        by_cases hlevel : level = 0
        · rw [hlevel]
          rfl
        · exact obj.locateFrom_eq_follow (hnarrow.epbs hfits (by omega)) blkid level bp
            (hnarrow.shifts hlevels)
    · rw [← obj.topIndex_eq hfits] at hi
      have hhole := hholes i bp hbp (by rw [hi]; exact topIndex_selectable hword)
      rw [follow_hole _ hhole]
      cases obj.dnode.nlevels - 1 with
      | zero => rw [locateFrom, if_pos hhole]
      | succ level => rw [locateFrom, if_pos hhole]
  checked obj hd blkid hblkid := by
    subst hd
    refine obj.checked_of hblkid (fun level hlevels i bp hbp hi => ?_)
    rcases h with hfew | hnarrow | hholes
    · have hzero : level = 0 := by omega
      rw [hzero]
      exact ⟨_, rfl⟩
    · exact obj.locateFromChecked_ok blkid level bp (hnarrow.shifts hlevels)
    · have hhole := hholes i bp hbp hi
      cases level with
      | zero => exact ⟨_, rfl⟩
      | succ level =>
        rw [locateFromChecked, if_pos hhole]
        exact ⟨_, rfl⟩

/-! ### Those that are not -/

/-- Every block is that of one pointer, of zeros. -/
def blank : PoolReader Id where
  readBlock _ := pure (.ok { data := List.replicate bpSize 0, verify := .ok, attempts := [] })
  verify _ _ := pure .ok
  salvageDva _ _ := pure (.ok ([], []))

theorem parse_blank (e : Endian) :
    ∃ child, BlkPtr.parse ((List.replicate bpSize 0).take bpSize) e = .ok child := by
  have hok : (BlkPtr.parse ((List.replicate bpSize 0).take bpSize) e).toOption.isSome = true := by
    cases e <;> decide +kernel
  cases hparse : BlkPtr.parse ((List.replicate bpSize 0).take bpSize) e with
  | error err =>
    rw [hparse] at hok
    cases hok
  | ok child => exact ⟨child, rfl⟩

/-- Such a block has no slot but the first. -/
theorem follow_blank {slot : Nat} (hslot : 0 < slot) {bp : BlkPtr} (hhole : ¬ bp.isHole = true)
    (rest : List Nat) :
    (follow blank (slot :: rest) bp).run =
      .error (.io s!"indirect block too small for index {slot}") := by
  have hbeyond : ¬ slot * bpSize + bpSize ≤ (List.replicate bpSize (0 : UInt8)).length := by
    have hpos : 0 < slot * bpSize := Nat.mul_pos hslot (by decide)
    rw [List.length_replicate]
    omega
  rw [follow, if_neg hhole]
  show (if slot * bpSize + bpSize ≤ (List.replicate bpSize (0 : UInt8)).length then _ else _ :
    Id _).run = _
  rw [if_neg hbeyond]
  rfl

/-- Where a shift of the highest level does not fit a word, a check fails. -/
theorem not_located_of_shifts {d : DnodePhys} {level i : Nat} {bp : BlkPtr}
    (hlevels : d.nlevels = level + 2) (hbp : d.blkptr[i]? = some bp) (hi : Selectable d i)
    (hhole : bp.isHole = false)
    (hshifts : ¬ (⟨blank, d, .little⟩ : ObjectReader Id).Shifts level) : ¬ Located d := by
  intro h
  obtain ⟨blkid, hword, htop, -⟩ := selectable_topIndex 0 hi (Nat.two_pow_pos _) (by decide)
  obtain ⟨r, hr, -⟩ := h.checked ⟨blank, d, .little⟩ rfl blkid hword
  rw [locateChecked_eq _ hlevels] at hr
  simp only [htop, hbp] at hr
  rw [locateFromChecked_fault _ hhole rfl hshifts] at hr
  cases hr

/-- Where the offset of a slot does not fit a word, it is that of another slot. -/
theorem not_located_of_offset {d : DnodePhys} {i : Nat} {bp : BlkPtr} (hlevels : d.nlevels = 2)
    (hwide : 58 ≤ d.indblkshift - 7) (hfits : d.indblkshift - 7 < 64)
    (hbp : d.blkptr[i]? = some bp) (hi : Selectable d i) (hhole : bp.isHole = false) :
    ¬ Located d := by
  intro h
  let obj : ObjectReader Id := ⟨blank, d, .little⟩
  have hone : (d.indblkshift - 7) * (d.nlevels - 1) = d.indblkshift - 7 := by
    rw [hlevels, Nat.mul_one]
  have hlow : 2 ^ 57 < 2 ^ (d.indblkshift - 7) := Nat.pow_lt_pow_right (by decide) (by omega)
  obtain ⟨blkid, hword, htop, hblkid⟩ :=
    selectable_topIndex (2 ^ 57) hi (by rw [hone]; exact hlow) (by decide)
  rw [hone] at hblkid
  have hblkid := hblkid hfits
  have hslot : blkid % 2 ^ (d.indblkshift - 7) = 2 ^ 57 := by
    rw [hblkid, Nat.add_comm, Nat.add_mul_mod_self_right, Nat.mod_eq_of_lt hlow]
  have htopfits : obj.Fits := by
    show (d.indblkshift - 7) * (d.nlevels - 1) < 64
    rw [hone]
    exact hfits
  have hexact : obj.Exact := h.exact Id obj rfl htopfits
  obtain ⟨hlen, -⟩ := List.getElem?_eq_some_iff.mp hbp
  have hcapacity : blkid < obj.capacity := by
    rw [capacity, if_neg (by show d.nlevels ≠ 0; omega)]
    show blkid < d.blkptr.length * (2 ^ (d.indblkshift - 7)) ^ (d.nlevels - 1)
    rw [hlevels, Nat.pow_one, hblkid]
    calc _ < (i + 1) * 2 ^ (d.indblkshift - 7) := by rw [Nat.succ_mul]; omega
      _ ≤ _ := Nat.mul_le_mul_right _ hlen
  obtain ⟨bp', hbp', hlocate, -⟩ := hexact.below blkid hword hcapacity
  rw [← obj.topIndex_eq htopfits, htop] at hbp'
  have hsame : bp' = bp := Option.some.inj (hbp'.symm.trans hbp)
  subst hsame
  -- The digit is beyond the block, and what is read is the pointer at its start.
  have hpath : slots (2 ^ obj.epbs) blkid (obj.dnode.nlevels - 1) = [2 ^ 57] := by
    show slots (2 ^ (d.indblkshift - 7)) blkid (d.nlevels - 1) = _
    rw [hlevels]
    show [blkid / (2 ^ (d.indblkshift - 7)) ^ 0 % 2 ^ (d.indblkshift - 7)] = _
    rw [Nat.pow_zero, Nat.div_one, hslot]
  have hnotHole : ¬ bp'.isHole = true := by
    rw [hhole]
    exact Bool.false_ne_true
  have hbeyond := follow_blank (Nat.two_pow_pos 57) hnotHole []
  obtain ⟨child, hchild⟩ := parse_blank bp'.endian
  have hindex : shr64 blkid (obj.epbs * 0) % shl64 1 obj.epbs = 2 ^ 57 := by
    rw [obj.index_eq ⟨by omega, hfits⟩, Nat.mul_zero, Nat.pow_zero, Nat.div_one]
    exact hslot
  have hzero : mul64 (2 ^ 57) bpSize = 0 := by decide
  have hfound : (obj.locate blkid).run = .ok (if child.isHole then none else some child) := by
    rw [obj.locate_eq hlevels, htop, hbp]
    show (obj.locateFrom blkid 1 bp').run = _
    rw [locateFrom, if_neg hnotHole]
    simp only [hindex, hzero]
    show (if 0 + bpSize ≤ (List.replicate bpSize (0 : UInt8)).length then _ else _ : Id _).run = _
    rw [if_pos (by rw [List.length_replicate]; omega), List.drop_zero, hchild]
    rfl
  have hsame := congrArg Id.run hlocate
  rw [hpath, hfound, hbeyond] at hsame
  cases hsame

/-- The blocks of a dnode are found as they should be, by every reader and for every id, exactly
where it is walkable. -/
theorem locate_sound_iff {d : DnodePhys} : Located d ↔ Walkable d := by
  refine ⟨fun h => ?_, Walkable.located⟩
  by_contra hnot
  simp only [Walkable, not_or, not_le] at hnot
  obtain ⟨hlevels, hwide, hpointer⟩ := hnot
  push Not at hpointer
  obtain ⟨i, bp, hbp, hi, hhole⟩ := hpointer
  replace hhole : bp.isHole = false := Bool.eq_false_iff.mpr hhole
  obtain ⟨level, hlevel⟩ : ∃ level, d.nlevels = level + 2 := ⟨d.nlevels - 2, by omega⟩
  by_cases hshifts : (⟨blank, d, .little⟩ : ObjectReader Id).Shifts level
  · obtain ⟨hshift, hepbs⟩ : (d.indblkshift - 7) * level < 64 ∧ d.indblkshift - 7 < 64 := hshifts
    have htwo : d.nlevels = 2 ∧ ¬ d.indblkshift - 7 ≤ 57 := by
      have hrest : (d.indblkshift - 7) * (d.nlevels - 2) < 64 := by
        rw [hlevel, Nat.add_sub_cancel]
        exact hshift
      by_contra hfine
      exact hwide ⟨fun hl => by_contra (fun hw => hfine ⟨hl, hw⟩), hrest⟩
    exact not_located_of_offset htwo.1 (by omega) hepbs hbp hi hhole h
  · exact not_located_of_shifts hlevel hbp hi hhole hshifts h

/-- A dnode of nine levels with 1024 pointers to an indirect block, and one pointer. -/
def nineLevels : List UInt8 :=
  let core : List UInt8 := [19, 17, 9, 1, 0, 0, 0, 0, 1, 0, 0, 0]
  let pointer : List UInt8 := [1, 0, 0, 0, 0, 0, 0, 0, 8, 0, 0, 0, 0, 0, 0, 0]
  core ++ List.replicate 52 0 ++ pointer ++ List.replicate 432 0

/-- The parser accepts it, and no block can be looked for without a shift by 70. -/
theorem nineLevels_shift : ∃ d, DnodePhys.parse nineLevels .little = .ok d ∧ ¬ Located d := by
  have hparts : (DnodePhys.parse nineLevels .little).toOption.map
      (fun d => (d.nlevels, d.indblkshift, d.blkptr.map BlkPtr.isHole)) = some (9, 17, [false]) := by
    decide +kernel
  cases hparse : DnodePhys.parse nineLevels .little with
  | error e =>
    rw [hparse] at hparts
    cases hparts
  | ok d =>
    rw [hparse] at hparts
    obtain ⟨hlevels, hrest⟩ := Prod.mk.inj (Option.some.inj hparts)
    obtain ⟨hshift, hholes⟩ := Prod.mk.inj hrest
    obtain ⟨bp, hbp, hhole⟩ := List.map_eq_singleton_iff.mp hholes
    have hfirst : d.blkptr[0]? = some bp := by
      rw [hbp]
      rfl
    have hselectable : Selectable d 0 := by
      rw [Selectable, hlevels, hshift]
      decide
    have hseventy : ¬ (⟨blank, d, .little⟩ : ObjectReader Id).Shifts 7 := by
      intro hshifts
      have hlt : (d.indblkshift - 7) * 7 < 64 := hshifts.1
      rw [hshift] at hlt
      exact absurd hlt (by decide)
    exact ⟨d, rfl, not_located_of_shifts hlevels hfirst hselectable hhole hseventy⟩

end ObjectReader

end Dmu
end ZvolRescue
