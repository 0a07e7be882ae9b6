import ZvolRescue.Lib.Choose
import ZvolRescue.Lib.Elimination
import ZvolRescue.Raidz.Field

/-!
# Parity generation and reconstruction

The parity of `generateParity` and the solver of `reconstruct`, over data columns that may
differ in length: a byte past the end of a column counts as zero.  P, Q and R are the
rows `x ↦ x ^ 0`, `x ↦ x ^ 1` and `x ↦ x ^ 2` of the points `2 ^ (ndata - 1 - i)`, so
the missing columns solve a system of powers, and the elimination of `invertRows` never
finds it singular for at most 255 columns.
-/

namespace ZvolRescue
namespace Raidz

open Lib GF256

/-! ## The functions of the source -/

/-- Coefficient of data column `i` of `ndata` in parity row `row`. -/
def coefficient (row i ndata : Nat) : UInt8 :=
  let e := ndata - 1 - i
  match row with
  | 0 => 1
  | 1 => gfPow 2 e
  | _ => gfPow 4 e

/-- The byte of a column at a position, zero past its end. -/
def byteAt (col : List UInt8) (pos : Nat) : UInt8 := col.getD pos 0

/-- The column at an index. -/
def column (data : List (List UInt8)) (i : Nat) : List UInt8 := data.getD i []

/-- The length of the longest column. -/
def longest (data : List (List UInt8)) : Nat := (data.map List.length).foldl max 0

/-- The three running sums of `generate_parity` at one position. -/
structure Sums where
  p : UInt8
  q : UInt8
  r : UInt8

/-- Take in byte `d` of column `i`. -/
def Sums.step (s : Sums) (i : Nat) (d : UInt8) : Sums :=
  if i = 0 then { p := d, q := d, r := d }
  else { p := s.p ^^^ d, q := gfMul s.q 2 ^^^ d, r := gfMul s.r 4 ^^^ d }

def sumsAt (data : List (List UInt8)) (pos : Nat) : Sums :=
  data.zipIdx.foldl (fun s c => s.step c.2 (byteAt c.1 pos)) { p := 0, q := 0, r := 0 }

/-- Row `row` of the sums; the output rows past R are never written. -/
def Sums.row (s : Sums) : Nat → UInt8
  | 0 => s.p
  | 1 => s.q
  | 2 => s.r
  | _ => 0

/-- The parity columns of `data`, each as long as the longest data column. -/
def generateParity (data : List (List UInt8)) (nparity : Nat) : List (List UInt8) :=
  (List.range nparity).map (fun row =>
    (List.range (longest data)).map (fun pos => (sumsAt data pos).row row))

inductive ReconstructError where
  /-- More columns missing than parities available. -/
  | tooManyMissing (missing parities : Nat)
  /-- The chosen parity rows are linearly dependent for these columns. -/
  | singular
  deriving DecidableEq, Repr

/-- The rows of `a` listed in `sel`, as a matrix over the field. -/
def selected (a : List (List UInt8)) (sel : List Nat) (k : Nat) : Fin k → Fin k → GF256 :=
  fun i j => ofByte ((a.getD (sel.getD i 0) []).getD j 0)

/-- The bytes of a matrix over the field. -/
def matrixBytes {k : Nat} (m : Fin k → Fin k → GF256) : List (List UInt8) :=
  List.ofFn (fun i => List.ofFn (fun j => (m i j).byte))

/-- Pick `k` rows of `a` that form an invertible matrix, in the order of `choose`, and
return their indices with the inverse. -/
def invertRows (a : List (List UInt8)) (k : Nat) : Option (List Nat × List (List UInt8)) :=
  (choose a.length k).findSome? (fun sel =>
    (Elimination.invert (selected a sel k)).map (fun inv => (sel, matrixBytes inv)))

/-- A parity byte less the contribution of the columns that are not missing. -/
def syndrome (data : List (List UInt8)) (missing : List Nat) (r : Nat) (parity : List UInt8)
    (pos : Nat) : UInt8 :=
  (List.range data.length).foldl
    (fun s i =>
      if i ∈ missing then s
      else s ^^^ gfMul (coefficient r i data.length) (byteAt (column data i) pos))
    (byteAt parity pos)

/-- One row of the inverse applied to the syndromes. -/
def dot (row syn : List UInt8) : UInt8 := (List.zipWith gfMul row syn).foldl (· ^^^ ·) 0

/-- Overwrite one byte of one column; a position past the column's end is passed over. -/
def setByte (data : List (List UInt8)) (col pos : Nat) (v : UInt8) : List (List UInt8) :=
  if pos ≥ (column data col).length then data else data.set col ((column data col).set pos v)

/-- The rounds of `reconstruct` for one position. -/
def rebuildAt (parity : List (Option (List UInt8))) (rows sel : List Nat)
    (inv : List (List UInt8)) (missing : List Nat) (data : List (List UInt8)) (pos : Nat) :
    List (List UInt8) :=
  let syn := sel.map (fun ri =>
    let r := rows.getD ri 0
    syndrome data missing r ((parity.getD r none).getD []) pos)
  missing.zipIdx.foldl (fun d cm => setByte d cm.1 pos (dot (inv.getD cm.2 []) syn)) data

/-- The parity columns that survive. -/
def survivingRows (parity : List (Option (List UInt8))) : List Nat :=
  (List.range parity.length).filter (fun r => (parity.getD r none).isSome)

/-- Rebuild the data columns listed in `missing` from the others and the parity columns
that are there.  A column keeps its length. -/
def reconstruct (data : List (List UInt8)) (parity : List (Option (List UInt8)))
    (missing : List Nat) : Except ReconstructError (List (List UInt8)) :=
  let k := missing.length
  if k = 0 then .ok data
  else
    let rows := survivingRows parity
    if rows.length < k then .error (.tooManyMissing k rows.length)
    else
      let a := rows.map (fun r => missing.map (fun i => coefficient r i data.length))
      match invertRows a k with
      | none => .error .singular
      | some (sel, inv) =>
        .ok ((List.range (longest data)).foldl (rebuildAt parity rows sel inv missing) data)

example : reconstruct [[1, 2], [0], [5, 6]]
    ((generateParity [[1, 2], [7], [5, 6]] 2).map some) [1] = .ok [[1, 2], [7], [5, 6]] := by
  decide

end Raidz
end ZvolRescue
