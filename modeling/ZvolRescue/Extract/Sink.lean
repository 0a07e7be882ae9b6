import Mathlib.Data.UInt
import ZvolRescue.Lib.Sparse

/-!
# Where extracted bytes go

A `BlockSink` takes the bytes of an image and `Digests` hash them on the way.  A `SparseFile`
does not write buffers of zeros, and its length is set only when an extraction finishes.
-/

namespace ZvolRescue
namespace Extract

open Lib

/-! ## Sinks -/

structure BlockSink (τ : Type) where
  writeAt : (offset : Nat) → List UInt8 → τ → Except String τ
  /-- Set the final length and flush. -/
  finish : (len : Nat) → τ → Except String τ

/-- A file that is written sparsely. -/
structure SparseFile where
  file : List UInt8
  /-- Bytes actually written. -/
  written : Nat
  deriving DecidableEq, Repr

namespace SparseFile

/-- Create or truncate. -/
def create : SparseFile := { file := [], written := 0 }

/-- Open for resuming: what is there is kept. -/
def openExisting (file : List UInt8) : SparseFile := { file, written := 0 }

/-- A buffer of zeros is skipped. -/
def writeAt (s : SparseFile) (offset : Nat) (buf : List UInt8) : SparseFile :=
  if allZero buf then s
  else { file := Lib.writeAt s.file offset buf, written := s.written + buf.length }

def finish (s : SparseFile) (len : Nat) : SparseFile := { s with file := setLen s.file len }

/-- The file system takes every write. -/
def sink : BlockSink SparseFile where
  writeAt offset buf s := .ok (s.writeAt offset buf)
  finish len s := .ok (s.finish len)

theorem writeAt_file (s : SparseFile) (offset : Nat) (buf : List UInt8) :
    (s.writeAt offset buf).file = writeSparse s.file offset buf := by
  unfold SparseFile.writeAt writeSparse
  by_cases h : allZero buf = true
  · rw [if_pos h, if_pos h]
  · rw [if_neg h, if_neg h]

end SparseFile

/-! ## Digests -/

/-- The hash functions of an image, by their digests. -/
structure ImageHashes where
  sha256 : List UInt8 → List UInt8
  sha1 : List UInt8 → List UInt8
  md5 : List UInt8 → List UInt8

/-- Lower-case hexadecimal, two digits a byte. -/
def hexBytes (bytes : List UInt8) : String :=
  String.ofList (bytes.flatMap (fun b =>
    [Nat.digitChar (b.toNat / 16), Nat.digitChar (b.toNat % 16)]))

/-- Which digests to take besides SHA-256. -/
structure Extra where
  md5 : Bool
  sha1 : Bool
  deriving DecidableEq, Repr

/-- Digests being taken, by the bytes they were fed. -/
structure Digests where
  extra : Extra
  fed : List UInt8
  deriving DecidableEq, Repr

structure DigestSet where
  sha256 : String
  sha1 : Option String
  md5 : Option String
  deriving DecidableEq, Repr

namespace Digests

def new (extra : Extra) : Digests := { extra, fed := [] }

def update (d : Digests) (bytes : List UInt8) : Digests := { d with fed := d.fed ++ bytes }

theorem update_update (d : Digests) (a b : List UInt8) :
    (d.update a).update b = d.update (a ++ b) := by
  unfold update
  simp

theorem update_nil (d : Digests) : d.update [] = d := by
  unfold update
  simp

def finish (h : ImageHashes) (d : Digests) : DigestSet :=
  { sha256 := hexBytes (h.sha256 d.fed)
    sha1 := if d.extra.sha1 then some (hexBytes (h.sha1 d.fed)) else none
    md5 := if d.extra.md5 then some (hexBytes (h.md5 d.fed)) else none }

end Digests

/-- The digests of a file's bytes. -/
def digestsOf (h : ImageHashes) (extra : Extra) (bytes : List UInt8) : DigestSet :=
  ((Digests.new extra).update bytes).finish h

/-- The digests that are there, by name, SHA-256 first. -/
def DigestSet.named (d : DigestSet) : List (String × String) :=
  [("sha256", d.sha256)] ++ (d.sha1.map (fun h => ("sha1", h))).toList ++
    (d.md5.map (fun h => ("md5", h))).toList

theorem digitChar_inj {a b : Nat} (ha : a < 16) (hb : b < 16)
    (h : Nat.digitChar a = Nat.digitChar b) : a = b := by
  have hall : ∀ x y : Fin 16, Nat.digitChar x = Nat.digitChar y → x = y := by decide
  exact congrArg Fin.val (hall ⟨a, ha⟩ ⟨b, hb⟩ h)

/-- Digests are told apart by their hexadecimal. -/
theorem hexBytes_inj {a b : List UInt8} (h : hexBytes a = hexBytes b) : a = b := by
  replace h := String.ofList_injective h
  induction a generalizing b with
  | nil =>
    cases b with
    | nil => rfl
    | cons y b => simp at h
  | cons x a ih =>
    cases b with
    | nil => simp at h
    | cons y b =>
      simp only [List.flatMap_cons, List.cons_append, List.nil_append, List.cons.injEq] at h
      obtain ⟨hhigh, hlow, hrest⟩ := h
      have hx := x.toNat_lt
      have hy := y.toNat_lt
      have hdiv := digitChar_inj (by omega) (by omega) hhigh
      have hmod := digitChar_inj (by omega) (by omega) hlow
      have hxy : x = y := by
        apply UInt8.toNat_inj.mp
        omega
      rw [hxy, ih hrest]

end Extract
end ZvolRescue
