import ZvolRescue.Lib.Word
import ZvolRescue.Ondisk.ZeroPoint

/-!
# The rings of a vdev

The front labels are measured from the start of the vdev and the rear ones from its end, so
the offset of a rear slot tells how long the vdev is (`impliedPsize_of_slot`).
-/

namespace ZvolRescue
namespace Ondisk

open Lib

namespace Anchor

def slotSize (a : Anchor) : Nat := shl64 1 a.shift

/-- The size the vdev must have for a rear slot to lie where it does. -/
def impliedPsize (a : Anchor) : Option Nat :=
  match a.label with
  | none => none
  | some label =>
    if label < 2 then none
    else
      let ring := sub64 (sub64 a.vdevOffset uberblockRingOffset) (mul64 a.slot a.slotSize)
      some (add64 ring (mul64 (sub64 4 label) labelSize))

end Anchor

/-- Where a label begins; the rear ones need the size of the vdev. -/
def labelStart (label : Nat) (psize : Option Nat) : Option Nat :=
  if label < 2 then some (label * labelSize)
  else psize.bind (fun p => (labelOffsets p).bind (fun offsets => offsets[label]?))

/-- A slot of this size at `off` lies on the ring of the label that begins at `start`. -/
def OnRing (start off size : Nat) : Prop :=
  start + uberblockRingOffset ≤ off ∧ off + size ≤ start + uberblockRingOffset + uberblockRingSize

/-! ## Slots of a ring -/

theorem clampShift_mem (shift : Nat) : clampShift shift ∈ [10, 11, 12, 13] := by
  have hlow : Uberblock.shift = 10 := rfl
  have hhigh : Uberblock.maxShift = 13 := rfl
  have hcases : clampShift shift = 10 ∨ clampShift shift = 11 ∨ clampShift shift = 12 ∨
      clampShift shift = 13 := by
    rw [clampShift, hlow, hhigh]
    omega
  simpa using hcases

theorem clampShift_lt (shift : Nat) : clampShift shift < 64 := by
  have hlt : ∀ s ∈ [10, 11, 12, 13], s < 64 := by decide
  exact hlt _ (clampShift_mem shift)

theorem clampShift_of_mem {shift : Nat} (h : shift ∈ [10, 11, 12, 13]) :
    clampShift shift = shift := by
  revert h shift
  decide

/-- The slots of a ring fill it. -/
theorem slotsPerRing_mul (shift : Nat) :
    slotsPerRing shift * 2 ^ clampShift shift = uberblockRingSize := by
  have hfill : ∀ s ∈ [10, 11, 12, 13], uberblockRingSize / 2 ^ s * 2 ^ s = uberblockRingSize := by
    decide
  exact hfill _ (clampShift_mem shift)

/-- Blocks of one size at different indices do not overlap. -/
theorem index_apart {i j : Nat} (h : i < j) (size : Nat) : i * size + size ≤ j * size := by
  rw [← Nat.succ_mul]
  exact Nat.mul_le_mul_right _ h

/-- A slot lies within its ring. -/
theorem slot_le {slot shift : Nat} (h : slot < slotsPerRing shift) :
    slot * 2 ^ clampShift shift + 2 ^ clampShift shift ≤ uberblockRingSize := by
  rw [← slotsPerRing_mul shift]
  exact index_apart h _

/-! ## Labels of a vdev -/

theorem labelStart_rear {label p start : Nat} (hlabel : 2 ≤ label)
    (h : labelStart label (some p) = some start) :
    label < 4 ∧ 4 * labelSize ≤ alignLabel p ∧ start = alignLabel p - (4 - label) * labelSize := by
  rw [labelStart, if_neg (by omega), Option.bind_some, labelOffsets] at h
  split at h
  · cases h
  · rename_i hroom
    have hfour : labelSize * labelsPerVdev = 4 * labelSize := rfl
    rw [hfour] at hroom
    rcases Nat.lt_or_ge label 4 with hlt | hge
    · refine ⟨hlt, by omega, ?_⟩
      have hcases : label = 2 ∨ label = 3 := by omega
      rcases hcases with rfl | rfl
      · simp only [Option.bind_some, List.getElem?_cons_succ, List.getElem?_cons_zero,
          Option.some.injEq] at h
        exact h.symm
      · simp only [Option.bind_some, List.getElem?_cons_succ, List.getElem?_cons_zero,
          Option.some.injEq] at h
        rw [← h, show (4 - 3) * labelSize = labelSize from rfl]
    · rw [Option.bind_some, List.getElem?_eq_none (by simpa using hge)] at h
      cases h

/-- The labels of a vdev with room for four lie at `labelOffsets`. -/
theorem labelStart_of_labelOffsets {label p : Nat} {offsets : List Nat}
    (h : labelOffsets p = some offsets) (hlabel : label < 4) :
    labelStart label (some p) = offsets[label]? := by
  rw [labelStart]
  by_cases hfront : label < 2
  · rw [if_pos hfront]
    rw [labelOffsets] at h
    split at h
    · cases h
    · have hoffsets := Option.some.inj h
      have hcases : label = 0 ∨ label = 1 := by omega
      rcases hcases with rfl | rfl
      · rw [← hoffsets, List.getElem?_cons_zero, Nat.zero_mul]
      · rw [← hoffsets, List.getElem?_cons_succ, List.getElem?_cons_zero, Nat.one_mul]
  · rw [if_neg hfront, Option.bind_some, h, Option.bind_some]

theorem labelStart_lt {label start : Nat} {psize : Option Nat}
    (h : labelStart label psize = some start) : label < 4 := by
  rcases Nat.lt_or_ge label 2 with hfront | hrear
  · omega
  · cases psize with
    | none =>
      rw [labelStart, if_neg (by omega), Option.bind_none] at h
      cases h
    | some p => exact (labelStart_rear hrear h).1

/-- Labels lie in their order, each clear of the next. -/
theorem labelStart_apart {label label' start start' : Nat} {psize : Option Nat}
    (h : labelStart label psize = some start) (h' : labelStart label' psize = some start')
    (hlt : label < label') : start + labelSize ≤ start' := by
  have hnext := index_apart hlt labelSize
  rcases Nat.lt_or_ge label' 2 with hfront' | hrear'
  · rw [labelStart, if_pos hfront'] at h'
    rw [labelStart, if_pos (by omega)] at h
    cases h
    cases h'
    exact hnext
  · cases psize with
    | none =>
      rw [labelStart, if_neg (by omega), Option.bind_none] at h'
      cases h'
    | some p =>
      obtain ⟨hfour', hroom, rfl⟩ := labelStart_rear hrear' h'
      rcases Nat.lt_or_ge label 2 with hfront | hrear
      · rw [labelStart, if_pos hfront] at h
        cases h
        have hlow := index_apart hfront labelSize
        have hhigh : (4 - label') * labelSize ≤ 2 * labelSize :=
          Nat.mul_le_mul_right _ (by omega)
        omega
      · obtain ⟨-, -, rfl⟩ := labelStart_rear hrear h
        have hback := index_apart (show 4 - label' < 4 - label by omega) labelSize
        have hfirst : (4 - label) * labelSize ≤ 4 * labelSize :=
          Nat.mul_le_mul_right _ (by omega)
        omega

/-! ## Offsets of slots -/

/-- A slot has an offset where its label lies on the vdev and its ring has that slot. -/
theorem slotOffset_eq (label slot shift : Nat) (psize : Option Nat) :
    slotOffset label slot shift psize =
      if slot < slotsPerRing shift then
        (labelStart label psize).map
          (fun start => start + uberblockRingOffset + slot * 2 ^ clampShift shift)
      else none := by
  have hclamp : slotsPerRing (clampShift shift) = slotsPerRing shift := by
    rw [slotsPerRing, clampShift_of_mem (clampShift_mem shift), slotsPerRing]
  rw [slotOffset.eq_def]
  dsimp only
  rw [hclamp]
  by_cases hslot : slot < slotsPerRing shift
  · rw [if_pos hslot]
    rcases Nat.lt_or_ge label 4 with hlabel | hlabel
    · rw [if_neg (by omega)]
      by_cases hfront : label < 2
      · rw [if_pos hfront, labelStart, if_pos hfront]
      · rw [if_neg hfront, labelStart, if_neg hfront]
        cases psize with
        | none => rfl
        | some p =>
          dsimp only
          rw [Option.bind_some, labelOffsets]
          have hfour : labelSize * labelsPerVdev = 4 * labelSize := rfl
          by_cases hroom : alignLabel p < 4 * labelSize
          · rw [if_pos hroom, hfour, if_pos hroom]
            rfl
          · rw [if_neg hroom, hfour, if_neg hroom]
            have hcases : label = 2 ∨ label = 3 := by omega
            rcases hcases with rfl | rfl
            · rfl
            · rfl
    · rw [if_pos (Or.inl hlabel)]
      cases hstart : labelStart label psize with
      | none => rfl
      | some start => exact absurd (labelStart_lt hstart) (by omega)
  · rw [if_neg hslot, if_pos (Or.inr (by omega))]

theorem slotOffset_eq_some {label slot shift off : Nat} {psize : Option Nat} :
    slotOffset label slot shift psize = some off ↔
      slot < slotsPerRing shift ∧ ∃ start, labelStart label psize = some start ∧
        off = start + uberblockRingOffset + slot * 2 ^ clampShift shift := by
  rw [slotOffset_eq]
  by_cases hslot : slot < slotsPerRing shift
  · rw [if_pos hslot, Option.map_eq_some_iff]
    constructor
    · rintro ⟨start, hstart, hoff⟩
      exact ⟨hslot, start, hstart, hoff.symm⟩
    · rintro ⟨-, start, hstart, hoff⟩
      exact ⟨start, hstart, hoff.symm⟩
  · rw [if_neg hslot]
    exact iff_of_false (by simp) (fun h => hslot h.1)

theorem onRing_of_slot {start slot shift : Nat} (h : slot < slotsPerRing shift) :
    OnRing start (start + uberblockRingOffset + slot * 2 ^ clampShift shift)
      (2 ^ clampShift shift) := by
  have hle := slot_le h
  exact ⟨by omega, by omega⟩

/-- No two slots of a vdev overlap, whatever labels they belong to. -/
theorem slotOffset_apart {label slot off label' slot' off' shift : Nat} {psize : Option Nat}
    (h : slotOffset label slot shift psize = some off)
    (h' : slotOffset label' slot' shift psize = some off')
    (hne : (label, slot) ≠ (label', slot')) :
    off + 2 ^ clampShift shift ≤ off' ∨ off' + 2 ^ clampShift shift ≤ off := by
  obtain ⟨hslot, start, hstart, rfl⟩ := slotOffset_eq_some.mp h
  obtain ⟨hslot', start', hstart', rfl⟩ := slotOffset_eq_some.mp h'
  have hring : labelSize = uberblockRingOffset + uberblockRingSize := rfl
  have hle := slot_le hslot
  have hle' := slot_le hslot'
  rcases Nat.lt_trichotomy label label' with hlt | rfl | hgt
  · have hclear := labelStart_apart hstart hstart' hlt
    left
    omega
  · rw [hstart] at hstart'
    cases hstart'
    rcases Nat.lt_trichotomy slot slot' with hlt | rfl | hgt
    · have hnext := index_apart hlt (2 ^ clampShift shift)
      left
      omega
    · exact absurd rfl hne
    · have hnext := index_apart hgt (2 ^ clampShift shift)
      right
      omega
  · have hclear := labelStart_apart hstart' hstart hgt
    right
    omega

/-! ## What an anchor says -/

/-- A rear slot gives back the size of its vdev, in whole labels. -/
theorem impliedPsize_of_slot {a : Anchor} {label p shift : Nat} (hp : p < word)
    (hlabel : a.label = some label) (hrear : 2 ≤ label) (hshift : a.shift = clampShift shift)
    (hoffset : slotOffset label a.slot shift (some p) = some a.vdevOffset) :
    a.impliedPsize = some (alignLabel p) := by
  obtain ⟨hslot, start, hstart, hoff⟩ := slotOffset_eq_some.mp hoffset
  obtain ⟨hfour, hroom, hfrom⟩ := labelStart_rear hrear hstart
  have hword : word = 2 ^ 64 := rfl
  have hring : labelSize = uberblockRingOffset + uberblockRingSize := rfl
  have halign := alignLabel_le p
  have hback : (4 - label) * labelSize ≤ 4 * labelSize := Nat.mul_le_mul_right _ (by omega)
  have hone := index_apart (show 0 < 4 - label by omega) labelSize
  have hle := slot_le hslot
  have hsize : a.slotSize = 2 ^ clampShift shift := by
    rw [Anchor.slotSize, hshift, shl64_one (clampShift_lt shift)]
  have hslotSize : mul64 a.slot a.slotSize = a.slot * 2 ^ clampShift shift := by
    rw [hsize, mul64_of_lt]
    omega
  have hring' : sub64 (sub64 a.vdevOffset uberblockRingOffset) (mul64 a.slot a.slotSize) =
      start := by
    rw [hslotSize, sub64_of_le (show a.vdevOffset < word by omega) (by omega),
      sub64_of_le (by omega) (by omega)]
    omega
  have hlabels : mul64 (sub64 4 label) labelSize = (4 - label) * labelSize := by
    rw [sub64_of_le (by decide) (by omega), mul64_of_lt]
    omega
  rw [Anchor.impliedPsize, hlabel]
  dsimp only
  rw [if_neg (by omega), hring', hlabels, add64_of_lt (by omega)]
  congr 1
  omega

/-- The candidates of a slot are offsets of slots. -/
theorem mem_candidates {txg shift : Nat} {psize : Option Nat} {thorough : Bool}
    {c : Nat × Nat × Nat}
    (h : c ∈ if thorough then allOffsets shift psize else slotOffsets txg shift psize) :
    slotOffset c.1 c.2.1 shift psize = some c.2.2 := by
  cases thorough with
  | true =>
    rw [if_pos rfl, allOffsets] at h
    obtain ⟨label, -, hslots⟩ := List.mem_flatMap.mp h
    obtain ⟨slot, -, hmap⟩ := List.mem_filterMap.mp hslots
    obtain ⟨off, hoff, rfl⟩ := Option.map_eq_some_iff.mp hmap
    exact hoff
  | false =>
    rw [if_neg Bool.false_ne_true, slotOffsets] at h
    obtain ⟨label, -, hmap⟩ := List.mem_filterMap.mp h
    obtain ⟨off, hoff, rfl⟩ := Option.map_eq_some_iff.mp hmap
    exact hoff

/-- The parts of a confirmed anchor fit together. -/
theorem placed_of_mem {h : Hashes} {buf : List UInt8} {physical : Nat} {psize : Option Nat}
    {thorough : Bool} {a : Anchor} (ha : a ∈ confirmSlotAt h buf physical psize thorough) :
    a.physical = physical ∧ a.base + a.vdevOffset = physical ∧
      a.shift ∈ [10, 11, 12, 13] ∧
      ∃ label, a.label = some label ∧ slotOffset label a.slot a.shift psize = some a.vdevOffset := by
  rw [confirmSlotAt] at ha
  split at ha
  · cases ha
  · obtain ⟨shift, hshift, hmem⟩ := List.mem_flatMap.mp ha
    obtain ⟨c, hcandidate, hc⟩ := List.mem_filterMap.mp hmem
    split at hc
    · cases hc
    · rename_i hle
      split at hc
      · cases hc
      · cases hc
        exact ⟨rfl, Nat.sub_add_cancel (Nat.le_of_not_lt hle), (List.mem_filter.mp hshift).1,
          c.1, rfl, mem_candidates hcandidate⟩

/-- The labels are where `labelOffsets` says, each has its ring of slots, no two slots of a vdev overlap, a rear slot
gives back the size of the vdev, and a confirmed anchor lies on the ring it names. -/
theorem zeroPoint_consistent {psize : Option Nat} (hsize : ∀ p ∈ psize, p < word) (shift : Nat) :
    (∀ p ∈ psize, ∀ offsets, labelOffsets p = some offsets →
      ∀ label < 4, labelStart label psize = offsets[label]?) ∧
    (∀ label start, labelStart label psize = some start → ∀ slot < slotsPerRing shift,
      ∃ off, slotOffset label slot shift psize = some off ∧
        OnRing start off (2 ^ clampShift shift)) ∧
    (∀ label slot off label' slot' off', slotOffset label slot shift psize = some off →
      slotOffset label' slot' shift psize = some off' → (label, slot) ≠ (label', slot') →
      off + 2 ^ clampShift shift ≤ off' ∨ off' + 2 ^ clampShift shift ≤ off) ∧
    (∀ p ∈ psize, ∀ (a : Anchor) (label : Nat), a.label = some label → 2 ≤ label →
      a.shift = clampShift shift → slotOffset label a.slot shift psize = some a.vdevOffset →
      a.impliedPsize = some (alignLabel p)) ∧
    ∀ (h : Hashes) (buf : List UInt8) (physical : Nat) (thorough : Bool),
      ∀ a ∈ confirmSlotAt h buf physical psize thorough,
        a.physical = physical ∧ a.base + a.vdevOffset = physical ∧
        ∃ label start, a.label = some label ∧ labelStart label psize = some start ∧
          slotOffset label a.slot a.shift psize = some a.vdevOffset ∧
          OnRing start a.vdevOffset (2 ^ a.shift) := by
  refine ⟨?_, ?_, fun _ _ _ _ _ _ h h' hne => slotOffset_apart h h' hne, ?_, ?_⟩
  · intro p hp offsets hoffsets label hlabel
    rw [Option.mem_def] at hp
    rw [hp]
    exact labelStart_of_labelOffsets hoffsets hlabel
  · intro label start hstart slot hslot
    exact ⟨_, slotOffset_eq_some.mpr ⟨hslot, start, hstart, rfl⟩, onRing_of_slot hslot⟩
  · intro p hp a label hlabel hrear hshift hoffset
    rw [Option.mem_def] at hp
    subst hp
    exact impliedPsize_of_slot (hsize p rfl) hlabel hrear hshift hoffset
  · intro h buf physical thorough a ha
    obtain ⟨hphysical, hbase, hshift, label, hlabel, hoffset⟩ := placed_of_mem ha
    obtain ⟨hslot, start, hstart, hoff⟩ := slotOffset_eq_some.mp hoffset
    refine ⟨hphysical, hbase, label, start, hlabel, hstart, hoffset, ?_⟩
    rw [hoff]
    have hring : OnRing start _ _ := onRing_of_slot hslot
    rw [clampShift_of_mem hshift] at hring ⊢
    exact hring

/-- A vdev of eight labels and 999 bytes: its last slot lies in the last label. -/
theorem zeroPoint_consistent_eight : ∃ off,
    slotOffset 3 31 12 (some (8 * labelSize + 999)) = some off ∧
      OnRing (7 * labelSize) off (2 ^ clampShift 12) :=
  have hlt : ∀ p ∈ some (8 * labelSize + 999), p < word := by
    intro p hp
    rw [Option.mem_def, Option.some.injEq] at hp
    rw [← hp]
    decide
  (zeroPoint_consistent hlt 12).2.1 3 (7 * labelSize) (by decide) 31 (by decide)

end Ondisk
end ZvolRescue
