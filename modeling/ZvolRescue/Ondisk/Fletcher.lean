import Mathlib.Init

/-!
# Byte order and the Fletcher checksums

`fletcher2` sums pairs of 64-bit words and `fletcher4` single 32-bit words, in the
writer's byte order.  A trailing partial group is ignored.
-/

namespace ZvolRescue
namespace Ondisk

inductive Endian where
  | little
  | big
  deriving DecidableEq, Repr

/-- The four words of a block checksum. -/
structure Words where
  w0 : UInt64
  w1 : UInt64
  w2 : UInt64
  w3 : UInt64
  deriving DecidableEq, Repr

namespace Endian

/-- The number that `bytes` spell, least significant byte first. -/
def leValue (bytes : List UInt8) : UInt64 :=
  bytes.foldr (fun b acc => b.toUInt64 + 256 * acc) 0

def value (e : Endian) (bytes : List UInt8) : UInt64 :=
  match e with
  | .little => leValue bytes
  | .big => leValue bytes.reverse

/-- The 64-bit number at a byte offset, unless the buffer ends before it does. -/
def u64At (e : Endian) (buf : List UInt8) (off : Nat) : Option UInt64 :=
  if off + 8 ≤ buf.length then some (e.value ((buf.drop off).take 8)) else none

end Endian

theorem u64At_take (e : Endian) {buf : List UInt8} {n off : Nat} (hoff : off + 8 ≤ n)
    (hn : n ≤ buf.length) : e.u64At (buf.take n) off = e.u64At buf off := by
  rw [Endian.u64At, Endian.u64At, List.length_take, Nat.min_eq_left hn, if_pos hoff,
    if_pos (by omega), List.drop_take, List.take_take, Nat.min_eq_left (by omega)]

/-- The groups of `n` bytes of `data`; `fuel` bounds their number. -/
def chunksExact (n : Nat) : Nat → List UInt8 → List (List UInt8)
  | 0, _ => []
  | fuel + 1, data =>
    if data.length < n then [] else data.take n :: chunksExact n fuel (data.drop n)

def fletcher2 (data : List UInt8) (e : Endian) : Words :=
  (chunksExact 16 data.length data).foldl
    (fun s pair =>
      let a0 := s.w0 + e.value (pair.take 8)
      let a1 := s.w1 + e.value (pair.drop 8)
      { w0 := a0, w1 := a1, w2 := s.w2 + a0, w3 := s.w3 + a1 })
    { w0 := 0, w1 := 0, w2 := 0, w3 := 0 }

def fletcher4 (data : List UInt8) (e : Endian) : Words :=
  (chunksExact 4 data.length data).foldl
    (fun s word =>
      let a := s.w0 + e.value word
      let b := s.w1 + a
      let c := s.w2 + b
      { w0 := a, w1 := b, w2 := c, w3 := s.w3 + c })
    { w0 := 0, w1 := 0, w2 := 0, w3 := 0 }

example : fletcher4 [1, 0, 0, 0, 2, 0, 0, 0] .little = ⟨3, 4, 5, 6⟩ := by decide

end Ondisk
end ZvolRescue
