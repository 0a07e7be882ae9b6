import Mathlib.Order.Basic

/-!
# Label geometry

Every vdev carries four labels, two at the front and two at the back.  Each holds the packed
configuration and a ring of uberblocks.
-/

namespace ZvolRescue
namespace Ondisk

def labelSize : Nat := 256 * 1024

def labelsPerVdev : Nat := 4

/-- Offset of the configuration inside a label. -/
def vdevPhysOffset : Nat := 16 * 1024

def vdevPhysSize : Nat := 112 * 1024

/-- Offset of the uberblock ring inside a label. -/
def uberblockRingOffset : Nat := 128 * 1024

def uberblockRingSize : Nat := 128 * 1024

/-- A size rounded down to whole labels. -/
def alignLabel (psize : Nat) : Nat := psize / labelSize * labelSize

/-- Where the four labels of a vdev of `psize` bytes lie, if it can hold them. -/
def labelOffsets (psize : Nat) : Option (List Nat) :=
  let aligned := alignLabel psize
  if aligned < labelSize * labelsPerVdev then none
  else some [0, labelSize, aligned - 2 * labelSize, aligned - labelSize]

theorem alignLabel_le (psize : Nat) : alignLabel psize ≤ psize := Nat.div_mul_le_self _ _

/-- A vdev holds four labels where it has room for them. -/
theorem labelOffsets_isSome (psize : Nat) :
    (labelOffsets psize).isSome ↔ labelSize * labelsPerVdev ≤ psize := by
  have hlabel : labelSize = 262144 := rfl
  have hlabels : labelsPerVdev = 4 := rfl
  have halign : alignLabel psize < labelSize * labelsPerVdev ↔
      psize < labelSize * labelsPerVdev := by
    rw [alignLabel, hlabel, hlabels]
    omega
  rw [labelOffsets]
  by_cases h : psize < labelSize * labelsPerVdev
  · rw [if_pos (halign.mpr h)]
    exact iff_of_false (by simp) (by omega)
  · rw [if_neg (fun hlt => h (halign.mp hlt))]
    exact iff_of_true rfl (by omega)

/-- Every label lies on its vdev. -/
theorem labelOffsets_le {psize : Nat} {offsets : List Nat} (h : labelOffsets psize = some offsets)
    {offset : Nat} (hmem : offset ∈ offsets) : offset + labelSize ≤ psize := by
  have hle := alignLabel_le psize
  have hlabel : labelSize = 262144 := rfl
  rw [labelOffsets] at h
  split at h
  · cases h
  · rename_i hlarge
    cases h
    rw [hlabel] at *
    rw [show labelsPerVdev = 4 from rfl] at hlarge
    rcases List.mem_cons.mp hmem with h | hmem
    · omega
    · rcases List.mem_cons.mp hmem with h | hmem
      · omega
      · rcases List.mem_cons.mp hmem with h | hmem
        · omega
        · rw [List.mem_singleton.mp hmem]
          omega

end Ondisk
end ZvolRescue
