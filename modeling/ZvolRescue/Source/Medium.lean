import Mathlib.Data.List.Basic
import ZvolRescue.Lib.Word

/-!
# A source that reads without error

Such a source is its size and its bytes.  A read inside it gives those bytes, and a read
past its end fails.
-/

namespace ZvolRescue
namespace Source

open Lib

/-- Why a read or a scan failed. -/
inductive Fault where
  | unexpectedEof
  | invalidData (text : String)
  | permissionDenied (text : String)
  deriving DecidableEq, Repr

theorem ok_bind {α β : Type} (a : α) (f : α → Except Fault β) :
    ((Except.ok a : Except Fault α) >>= f) = f a := (rfl)

theorem pure_eq_ok {α : Type} (a : α) : (pure a : Except Fault α) = .ok a := (rfl)

/-- Sizes of files are signed 64-bit numbers. -/
structure Medium where
  size : Nat
  byte : Nat → UInt8
  /-- A block device, not an image. -/
  device : Bool
  size_lt : size < 2 ^ 63

namespace Medium

variable (m : Medium)

/-- The `n` bytes from `offset` on. -/
def slice (offset n : Nat) : List UInt8 := (List.range' offset n).map m.byte

/-- What is there is read, with or without a salvage. -/
def readAt (offset n : Nat) : Except Fault (List UInt8) :=
  if offset + n ≤ m.size then .ok (m.slice offset n) else .error .unexpectedEof

@[simp] theorem slice_length (offset n : Nat) : (m.slice offset n).length = n := by
  simp [slice]

theorem readAt_of_le {offset n : Nat} (h : offset + n ≤ m.size) :
    m.readAt offset n = .ok (m.slice offset n) := if_pos h

theorem slice_getElem? (offset n i : Nat) :
    (m.slice offset n)[i]? = if i < n then some (m.byte (offset + i)) else none := by
  by_cases h : i < n
  · simp [slice, h]
  · simp [slice, h]

theorem slice_getD {offset n i : Nat} (h : i < n) :
    (m.slice offset n).getD i 0 = m.byte (offset + i) := by
  rw [List.getD_eq_getElem?_getD, m.slice_getElem?, if_pos h]
  rfl

theorem slice_drop (offset n k : Nat) :
    (m.slice offset n).drop k = m.slice (offset + k) (n - k) := by
  apply List.ext_getElem?
  intro i
  rw [List.getElem?_drop, slice_getElem?, slice_getElem?, Nat.add_assoc]
  by_cases h : k + i < n
  · rw [if_pos h, if_pos (by omega)]
  · rw [if_neg h, if_neg (by omega)]

theorem slice_take {offset n k : Nat} (h : k ≤ n) :
    (m.slice offset n).take k = m.slice offset k := by
  apply List.ext_getElem?
  intro i
  rw [List.getElem?_take, slice_getElem?, slice_getElem?]
  by_cases hi : i < k
  · rw [if_pos hi, if_pos (by omega), if_pos hi]
  · rw [if_neg hi, if_neg hi]

/-- Slices whose bytes agree are equal. -/
theorem slice_congr {a b : Medium} {x y n : Nat}
    (h : ∀ i, i < n → a.byte (x + i) = b.byte (y + i)) : a.slice x n = b.slice y n := by
  apply List.ext_getElem?
  intro i
  rw [slice_getElem?, slice_getElem?]
  by_cases hi : i < n
  · rw [if_pos hi, if_pos hi, h i hi]
  · rw [if_neg hi, if_neg hi]

end Medium
end Source
end ZvolRescue
