import Mathlib.Algebra.BigOperators.Ring.List
import ZvolRescue.Lib.Grid
import ZvolRescue.Lib.Word

/-!
# The layout of a block on a RAID-Z vdev

`map` spreads a block over the children.  The allocation of the block is a run of
consecutive sectors of the grid whose rows are the sector rows of the children, and
`map_laidOut` says that the columns are that run, each sector once, as long as the
64-bit arithmetic does not wrap.
-/

namespace ZvolRescue
namespace Raidz

open Lib

/-- One column of a stripe: a child, the byte offset on it and the bytes there. -/
structure Column where
  devidx : Nat
  offset : Nat
  size : Nat
  deriving DecidableEq, Repr

structure Map where
  /-- Columns in stripe order: parity columns, then data. -/
  cols : List Column
  nparity : Nat
  /-- Columns accessed; the rest are skip padding. -/
  acols : Nat
  /-- Columns that carry an extra sector. -/
  bigcols : Nat
  asize : Nat
  nskip : Nat
  deriving DecidableEq, Repr

namespace Map

/-- The data columns.  The source's slice is out of bounds for a block of no bytes. -/
def data (m : Map) : List Column := (m.cols.take m.acols).drop m.nparity

def parity (m : Map) : List Column := m.cols.take m.nparity

end Map

/-- How `s` data sectors divide over the columns. -/
structure Shares where
  /-- Full rows of the stripe. -/
  q : Nat
  /-- Columns with one sector more. -/
  bc : Nat
  tot : Nat
  acols : Nat
  scols : Nat

def shares (s dcols nparity : Nat) : Shares :=
  let ndata := sub64 dcols nparity
  let q := s / ndata
  let r := s - q * ndata
  let bc := if r = 0 then 0 else add64 r nparity
  let tot := add64 s (mul64 nparity (add64 q (if r ≠ 0 then 1 else 0)))
  if q = 0 then
    { q, bc, tot, acols := bc,
      scols := min dcols (mul64 (divCeil bc (add64 nparity 1)) (add64 nparity 1)) }
  else { q, bc, tot, acols := dcols, scols := dcols }

/-- Column `c` of the stripe that starts on child `f` at child offset `o`. -/
def stripeColumn (sh : Shares) (f o unit ashift dcols c : Nat) : Column :=
  let size :=
    if c ≥ sh.acols then 0
    else if c < sh.bc then shl64 (add64 sh.q 1) ashift
    else shl64 sh.q ashift
  let col := add64 f c
  if col ≥ dcols then { devidx := col - dcols, offset := add64 o unit, size }
  else { devidx := col, offset := o, size }

/-- Exchange the places, not the sizes, of the first two columns. -/
def swapFirst : List Column → List Column
  | c₀ :: c₁ :: cols =>
    { c₀ with devidx := c₁.devidx, offset := c₁.offset } ::
      { c₁ with devidx := c₀.devidx, offset := c₀.offset } :: cols
  | cols => cols

/-- Lay out `psize` bytes at top-level offset `offset`. -/
def map (offset psize ashift dcols nparity : Nat) : Map :=
  let unit := shl64 1 ashift
  let b := shr64 offset ashift
  let sh := shares (divCeil psize unit) dcols nparity
  let f := b % dcols
  let o := shl64 (b / dcols) ashift
  let cols := (List.range sh.scols).map (stripeColumn sh f o unit ashift dcols)
  let asize := cols.foldl (fun a c => add64 a c.size) 0
  let group := shl64 (add64 nparity 1) ashift
  -- Single-parity RAID-Z swaps parity and the first data column every 1 MiB.
  { cols := if nparity = 1 ∧ offset.testBit 20 = true then swapFirst cols else cols
    nparity
    acols := sh.acols
    bigcols := sh.bc
    asize := mul64 (divCeil asize group) group
    nskip := mul64 (divCeil sh.tot (add64 nparity 1)) (add64 nparity 1) - sh.tot }

/-! ## The allocation -/

/-- The data sectors of a block. -/
def dataSectors (psize ashift : Nat) : Nat := divCeil psize (2 ^ ashift)

/-- The sectors OpenZFS allocates for data and parity. -/
def allocSectors (psize ashift dcols nparity : Nat) : Nat :=
  dataSectors psize ashift + nparity * divCeil (dataSectors psize ashift) (dcols - nparity)

/-- Sector `i` of the row-major grid over the children: the child and the byte offset. -/
def cell (ashift dcols i : Nat) : Nat × Nat := (i % dcols, i / dcols * 2 ^ ashift)

/-- The sectors of a column. -/
def Column.sectors (ashift : Nat) (c : Column) : List (Nat × Nat) :=
  (List.range (c.size / 2 ^ ashift)).map (fun t => (c.devidx, c.offset + t * 2 ^ ashift))

/-- Byte `byte` of child `child` belongs to the column. -/
def Column.Holds (c : Column) (child byte : Nat) : Prop :=
  c.devidx = child ∧ c.offset ≤ byte ∧ byte < c.offset + c.size

/-- The columns of `map` are the allocation of the block. -/
structure LaidOut (offset psize ashift dcols nparity : Nat) : Prop where
  /-- Columns are made of whole sectors. -/
  aligned : ∀ c ∈ (map offset psize ashift dcols nparity).cols,
    2 ^ ashift ∣ c.offset ∧ 2 ^ ashift ∣ c.size
  covers : ((map offset psize ashift dcols nparity).cols.flatMap (Column.sectors ashift)).Perm
    ((List.range (allocSectors psize ashift dcols nparity)).map
      (fun i => cell ashift dcols (offset / 2 ^ ashift + i)))
  once : ((map offset psize ashift dcols nparity).cols.flatMap (Column.sectors ashift)).Nodup
  children : ((map offset psize ashift dcols nparity).cols.map Column.devidx).Nodup ∧
    ∀ c ∈ (map offset psize ashift dcols nparity).cols, c.devidx < dcols
  data : ((map offset psize ashift dcols nparity).data.map Column.size).sum =
    dataSectors psize ashift * 2 ^ ashift

/-- The 64-bit arithmetic of `map` does not wrap. -/
structure Fits (offset psize ashift dcols nparity : Nat) : Prop where
  offset_lt : offset < word
  parity_lt : nparity < dcols
  dcols_le : 2 * dcols ≤ word
  alloc_lt : (allocSectors psize ashift dcols nparity + nparity + 1) * 2 ^ ashift < word

/-! ## The shares of the columns -/

/-- What `shares` computes, without the wrapping. -/
structure Shared (s dcols nparity : Nat) (sh : Shares) : Prop where
  tot_eq : sh.tot = s + nparity * divCeil s (dcols - nparity)
  rows : sh.tot = sh.q * dcols + sh.bc
  bc_lt : sh.bc < dcols
  acols_eq : sh.acols = if sh.q = 0 then sh.bc else dcols
  acols_le : sh.acols ≤ sh.scols
  scols_le : sh.scols ≤ dcols
  full : sh.q ≠ 0 → sh.scols = dcols
  sectors : s = (dcols - nparity) * sh.q + (sh.bc - nparity)
  parity : sh.bc = 0 ∨ nparity < sh.bc

theorem shares_spec {s dcols nparity : Nat} (hparity : nparity < dcols) (hdcols : 2 * dcols ≤ word)
    (hs : s + nparity * divCeil s (dcols - nparity) < word) :
    Shared s dcols nparity (shares s dcols nparity) := by
  have hnd : sub64 dcols nparity = dcols - nparity :=
    sub64_of_le (by unfold word at *; omega) (by omega)
  have hpos : 0 < dcols - nparity := by omega
  have hdiv := Nat.div_add_mod s (dcols - nparity)
  have hmod := Nat.mod_lt s hpos
  have hr : s - s / (dcols - nparity) * (dcols - nparity) = s % (dcols - nparity) := by
    rw [Nat.mul_comm]
    omega
  obtain ⟨q, hq⟩ : ∃ q, s / (dcols - nparity) = q := ⟨_, rfl⟩
  obtain ⟨r, hrr⟩ : ∃ r, s % (dcols - nparity) = r := ⟨_, rfl⟩
  rw [hq, hrr] at hdiv hr
  rw [hrr] at hmod
  have hceil : divCeil s (dcols - nparity) = q + if r = 0 then 0 else 1 := by
    rw [divCeil_eq, hq, hrr]
  rw [hceil] at hs
  have hqle : q ≤ (dcols - nparity) * q := Nat.le_mul_of_pos_left q hpos
  have hprod : q * dcols = (dcols - nparity) * q + nparity * q := by
    rw [← Nat.add_mul, Nat.sub_add_cancel (by omega), Nat.mul_comm]
  have hone : add64 nparity 1 = nparity + 1 := add64_of_lt (by unfold word at *; omega)
  have hbc : add64 r nparity = r + nparity := add64_of_lt (by unfold word at *; omega)
  have hsum : add64 q (if r ≠ 0 then 1 else 0) = q + if r = 0 then 0 else 1 := by
    by_cases h0 : r = 0
    · rw [if_neg (not_not.mpr h0), if_pos h0]
      exact add64_of_lt (by omega)
    · rw [if_pos h0, if_neg h0]
      exact add64_of_lt (by omega)
  have hmul : mul64 nparity (q + if r = 0 then 0 else 1) = nparity * (q + if r = 0 then 0 else 1) :=
    mul64_of_lt (by omega)
  have hround : ∀ b ≤ dcols, mul64 (divCeil b (nparity + 1)) (nparity + 1) =
      divCeil b (nparity + 1) * (nparity + 1) := by
    intro b hb
    have := divCeil_mul_lt (a := b) (show 0 < nparity + 1 by omega)
    exact mul64_of_lt (by unfold word at *; omega)
  have hbcle : (if r = 0 then 0 else r + nparity) < dcols := by
    by_cases h0 : r = 0
    · rw [if_pos h0]
      omega
    · rw [if_neg h0]
      omega
  have hup := le_divCeil_mul (a := if r = 0 then 0 else r + nparity) (show 0 < nparity + 1 by omega)
  have htot : s + nparity * (q + if r = 0 then 0 else 1) =
      q * dcols + if r = 0 then 0 else r + nparity := by
    rw [Nat.mul_add, hprod]
    by_cases h0 : r = 0
    · rw [if_pos h0, if_pos h0]
      omega
    · rw [if_neg h0, if_neg h0]
      omega
  have hparts : s = (dcols - nparity) * q + ((if r = 0 then 0 else r + nparity) - nparity) := by
    by_cases h0 : r = 0
    · rw [if_pos h0]
      omega
    · rw [if_neg h0]
      omega
  have hlast : (if r = 0 then 0 else r + nparity) = 0 ∨
      nparity < if r = 0 then 0 else r + nparity := by
    by_cases h0 : r = 0
    · exact Or.inl (if_pos h0)
    · rw [if_neg h0]
      omega
  have hdef : shares s dcols nparity =
      if q = 0 then
        { q, bc := if r = 0 then 0 else r + nparity
          tot := s + nparity * (q + if r = 0 then 0 else 1)
          acols := if r = 0 then 0 else r + nparity
          scols := min dcols (divCeil (if r = 0 then 0 else r + nparity) (nparity + 1) *
            (nparity + 1)) }
      else
        { q, bc := if r = 0 then 0 else r + nparity
          tot := s + nparity * (q + if r = 0 then 0 else 1)
          acols := dcols, scols := dcols } := by
    unfold shares
    simp only [hnd, hq, hr, hbc, hsum, hmul, hone, add64_of_lt hs, hround _ hbcle.le]
  rw [hdef]
  by_cases hq0 : q = 0
  · rw [if_pos hq0]
    exact { tot_eq := by rw [hceil], rows := htot, bc_lt := hbcle, acols_eq := (if_pos hq0).symm,
            acols_le := le_min hbcle.le hup, scols_le := min_le_left _ _,
            full := fun h => absurd hq0 h, sectors := hparts, parity := hlast }
  · rw [if_neg hq0]
    exact { tot_eq := by rw [hceil], rows := htot, bc_lt := hbcle, acols_eq := (if_neg hq0).symm,
            acols_le := Nat.le_refl _, scols_le := Nat.le_refl _,
            full := fun _ => rfl, sectors := hparts, parity := hlast }

theorem shares_q (s dcols nparity : Nat) :
    (shares s dcols nparity).q = s / sub64 dcols nparity := by
  unfold shares
  dsimp only
  split
  · rfl
  · rfl

theorem shares_bc (s dcols nparity : Nat) :
    (shares s dcols nparity).bc =
      if s - s / sub64 dcols nparity * sub64 dcols nparity = 0 then 0
      else add64 (s - s / sub64 dcols nparity * sub64 dcols nparity) nparity := by
  unfold shares
  dsimp only
  split
  · rfl
  · rfl

/-- The sectors of column `c`. -/
def Shares.count (sh : Shares) (c : Nat) : Nat :=
  if c ≥ sh.acols then 0 else if c < sh.bc then sh.q + 1 else sh.q

section Columns

variable {s dcols nparity : Nat} {sh : Shares}

theorem Shared.count_eq (h : Shared s dcols nparity sh) {c : Nat} (hc : c < dcols) :
    sh.count c = if c < sh.bc then sh.q + 1 else sh.q := by
  have hacols := h.acols_eq
  unfold Shares.count
  by_cases hq : sh.q = 0
  · rw [if_pos hq] at hacols
    by_cases hlt : c < sh.bc
    · rw [if_neg (by omega)]
    · rw [if_pos (by omega), if_neg hlt, hq]
  · rw [if_neg hq] at hacols
    rw [if_neg (by omega)]

theorem Shared.count_le_tot (h : Shared s dcols nparity sh) (c : Nat) : sh.count c ≤ sh.tot := by
  have hd : sh.q ≤ sh.q * dcols := Nat.le_mul_of_pos_right _ (by have := h.bc_lt; omega)
  have hrows := h.rows
  unfold Shares.count
  split
  · exact Nat.zero_le _
  · split
    · omega
    · omega

/-- Column `c` has a sector in row `t` exactly when sector `c + t * dcols` is allocated. -/
theorem Shared.lt_count (h : Shared s dcols nparity sh) {c : Nat} (hc : c < sh.scols) (t : Nat) :
    t < sh.count c ↔ c + t * dcols < sh.tot := by
  have hlt := h.bc_lt
  have hcd : c < dcols := by have := h.scols_le; omega
  have hnext : ∀ {a : Nat}, a < t → a * dcols + dcols ≤ t * dcols := by
    intro a ha
    rw [← Nat.succ_mul]
    exact Nat.mul_le_mul_right _ ha
  have hprev : t < sh.q → t * dcols + dcols ≤ sh.q * dcols := by
    intro ht
    rw [← Nat.succ_mul]
    exact Nat.mul_le_mul_right _ ht
  rw [Shares.count, h.rows]
  rcases Nat.lt_trichotomy t sh.q with ht | ht | ht
  · have := hprev ht
    have hacols : ¬ c ≥ sh.acols := by
      rw [h.acols_eq, if_neg (by omega)]
      omega
    rw [if_neg hacols]
    split
    · omega
    · omega
  · subst ht
    by_cases hb : c < sh.bc
    · have hacols : ¬ c ≥ sh.acols := by
        rw [h.acols_eq]
        split
        · omega
        · omega
      rw [if_neg hacols, if_pos hb]
      omega
    · rw [if_neg hb]
      split
      · omega
      · omega
  · have := hnext ht
    split
    · omega
    · split
      · omega
      · omega

/-- The sectors of the columns from `a` on. -/
theorem sum_share (q bc a n : Nat) :
    ((List.range' a n).map (fun c => if c < bc then q + 1 else q)).sum =
      n * q + (min (a + n) bc - min a bc) := by
  induction n with
  | zero => simp
  | succ n ih =>
    rw [List.range'_1_concat, List.map_append, List.sum_append, ih, List.map_singleton,
      List.sum_singleton, Nat.succ_mul]
    split
    · omega
    · omega

/-- The columns past the last one listed get no sector. -/
theorem Shared.tot_le (h : Shared s dcols nparity sh) {c : Nat} (hc : sh.scols ≤ c)
    (hlt : c < dcols) : sh.tot ≤ c := by
  have hq : sh.q = 0 := by
    by_contra hq
    have := h.full hq
    omega
  have hacols := h.acols_le
  rw [h.acols_eq, if_pos hq] at hacols
  rw [h.rows, hq, Nat.zero_mul]
  omega

/-- What column `c` is without the wrapping. -/
theorem stripeColumn_eq (h : Shared s dcols nparity sh) {b ashift c : Nat}
    (hc : c < sh.scols) (hdcols : 2 * dcols ≤ word) (hashift : ashift < 64)
    (hoff : 2 ≤ dcols → (b / dcols + 1) * 2 ^ ashift < word) (htot : (sh.tot + 1) * 2 ^ ashift < word) :
    stripeColumn sh (b % dcols) (b / dcols * 2 ^ ashift) (2 ^ ashift) ashift dcols c =
      { devidx := (b + c) % dcols
        offset := (b + c) / dcols * 2 ^ ashift
        size := sh.count c * 2 ^ ashift } := by
  have hcd : c < dcols := by have := h.scols_le; omega
  have hmod := Nat.mod_lt b (show 0 < dcols by omega)
  have hdiv := Nat.div_add_mod b dcols
  have hcol : add64 (b % dcols) c = b % dcols + c := add64_of_lt (by omega)
  have hsize : (if c ≥ sh.acols then 0
      else if c < sh.bc then shl64 (add64 sh.q 1) ashift
      else shl64 sh.q ashift) = sh.count c * 2 ^ ashift := by
    have hle : sh.count c * 2 ^ ashift ≤ sh.tot * 2 ^ ashift :=
      Nat.mul_le_mul_right _ (h.count_le_tot c)
    have hlt : sh.tot * 2 ^ ashift < word := by
      rw [Nat.add_mul] at htot
      omega
    have hcount := h.count_le_tot c
    have htotlt : sh.tot + 1 < word := by
      have := Nat.le_mul_of_pos_right (sh.tot + 1) (Nat.two_pow_pos ashift)
      omega
    unfold Shares.count at *
    by_cases ha : c ≥ sh.acols
    · rw [if_pos ha, if_pos ha, Nat.zero_mul]
    · simp only [if_neg ha] at *
      by_cases hb : c < sh.bc
      · simp only [if_pos hb] at *
        rw [add64_of_lt (by omega), shl64_of_lt hashift (by omega)]
      · simp only [if_neg hb] at *
        rw [shl64_of_lt hashift (by omega)]
  unfold stripeColumn
  simp only [hsize, hcol]
  by_cases hwrap : b % dcols + c ≥ dcols
  · have heq : b + c = (b % dcols + c - dcols) + dcols * (b / dcols + 1) := by
      rw [Nat.mul_add, Nat.mul_one]
      omega
    have hlt : b % dcols + c - dcols < dcols := by omega
    have hoff := hoff (by omega)
    rw [Nat.add_mul, Nat.one_mul] at hoff
    rw [if_pos hwrap, heq, Nat.add_mul_mod_self_left, Nat.mod_eq_of_lt hlt,
      Nat.add_mul_div_left _ _ (by omega), Nat.div_eq_of_lt hlt, Nat.zero_add,
      add64_of_lt hoff, Nat.add_mul, Nat.one_mul]
  · have heq : b + c = (b % dcols + c) + dcols * (b / dcols) := by omega
    have hlt : b % dcols + c < dcols := by omega
    rw [if_neg hwrap, heq, Nat.add_mul_mod_self_left, Nat.mod_eq_of_lt hlt,
      Nat.add_mul_div_left _ _ (by omega), Nat.div_eq_of_lt hlt, Nat.zero_add]

/-- The columns before the swap. -/
def gridColumns (sh : Shares) (b ashift dcols : Nat) : List Column :=
  (List.range sh.scols).map (fun c =>
    { devidx := (b + c) % dcols
      offset := (b + c) / dcols * 2 ^ ashift
      size := sh.count c * 2 ^ ashift })

/-- The columns in turn are dealt the sectors of the grid from `b` on. -/
theorem gridColumns_sectors (h : Shared s dcols nparity sh) (b ashift : Nat) :
    (gridColumns sh b ashift dcols).flatMap (Column.sectors ashift) =
      ((List.range sh.scols).flatMap (fun c => deal dcols (sh.count c) c)).map
        (fun i => cell ashift dcols (b + i)) := by
  have hpos : 0 < dcols := by have := h.bc_lt; omega
  rw [gridColumns, List.flatMap_map, List.map_flatMap]
  refine congrArg List.flatten (List.map_congr_left (fun c _ => ?_))
  rw [Column.sectors, deal, List.map_map, Nat.mul_div_cancel _ (Nat.two_pow_pos ashift)]
  refine List.map_congr_left (fun t _ => ?_)
  show _ = cell ashift dcols (b + (c + t * dcols))
  rw [cell, ← Nat.add_assoc, Nat.add_mul_mod_self_right, Nat.add_mul_div_right _ _ hpos,
    Nat.add_mul]

theorem gridColumns_perm (h : Shared s dcols nparity sh) (b ashift : Nat) :
    ((gridColumns sh b ashift dcols).flatMap (Column.sectors ashift)).Perm
      ((List.range sh.tot).map (fun i => cell ashift dcols (b + i))) := by
  have hpos : 0 < dcols := by have := h.bc_lt; omega
  rw [gridColumns_sectors h]
  exact (deal_perm hpos h.scols_le (fun c hc t => h.lt_count hc t)
    (fun c hc hlt => h.tot_le hc hlt)).map _

theorem gridColumns_devidx_nodup (h : Shared s dcols nparity sh) (b ashift : Nat) :
    ((gridColumns sh b ashift dcols).map Column.devidx).Nodup := by
  rw [gridColumns, List.map_map]
  refine List.Nodup.map_on (fun x hx y hy hxy => ?_) List.nodup_range
  have hle := h.scols_le
  have hx := List.mem_range.mp hx
  have hy := List.mem_range.mp hy
  have hxy : (b + x) % dcols = (b + y) % dcols := hxy
  have hx' : (b + x) % dcols = (b % dcols + x) % dcols := by rw [Nat.mod_add_mod]
  have hy' : (b + y) % dcols = (b % dcols + y) % dcols := by rw [Nat.mod_add_mod]
  rw [hx', hy'] at hxy
  have hb := Nat.mod_lt b (show 0 < dcols by omega)
  have key : ∀ z < dcols, (b % dcols + z) % dcols =
      if b % dcols + z < dcols then b % dcols + z else b % dcols + z - dcols := by
    intro z hz
    by_cases hlt : b % dcols + z < dcols
    · rw [if_pos hlt, Nat.mod_eq_of_lt hlt]
    · rw [if_neg hlt, Nat.mod_eq_sub_mod (by omega), Nat.mod_eq_of_lt (by omega)]
  rw [key x (by omega), key y (by omega)] at hxy
  split at hxy
  · split at hxy
    · omega
    · omega
  · split at hxy
    · omega
    · omega

/-- With single parity the two columns that may be swapped are equally long. -/
theorem Shared.count_zero_one (h : Shared s dcols 1 sh) (hd : 1 < dcols) :
    sh.count 0 = sh.count 1 := by
  have hacols := h.acols_eq
  unfold Shares.count
  rcases h.parity with h0 | h1
  · rw [h0] at hacols ⊢
    by_cases hq : sh.q = 0
    · rw [if_pos hq] at hacols
      rw [if_pos (by omega), if_pos (by omega)]
    · rw [if_neg hq] at hacols
      rw [if_neg (by omega), if_neg (by omega), if_neg (by omega), if_neg (by omega)]
  · have hle : 1 < sh.acols := by
      rw [hacols]
      split
      · exact h1
      · exact hd
    rw [if_neg (by omega), if_pos (by omega), if_neg (by omega), if_pos h1]

end Columns

/-! ## The swap -/

theorem swapFirst_size (cols : List Column) :
    (swapFirst cols).map Column.size = cols.map Column.size := by
  match cols with
  | [] | [_] | _ :: _ :: _ => rfl

/-- Exchanging the places of columns of one size is reordering the columns. -/
theorem swapFirst_perm {cols : List Column}
    (h : ∀ c₀ c₁ rest, cols = c₀ :: c₁ :: rest → c₀.size = c₁.size) :
    (swapFirst cols).Perm cols := by
  match cols, h with
  | [], _ | [_], _ => exact List.Perm.refl _
  | c₀ :: c₁ :: rest, h =>
    have hsize := h c₀ c₁ rest rfl
    have h₀ : { c₀ with devidx := c₁.devidx, offset := c₁.offset } = c₁ := by rw [hsize]
    have h₁ : { c₁ with devidx := c₀.devidx, offset := c₀.offset } = c₀ := by rw [← hsize]
    rw [swapFirst, h₀, h₁]
    exact List.Perm.swap _ _ _

/-! ## The columns of `map` -/

section Map

variable {offset psize ashift dcols nparity : Nat}

theorem Fits.ashift_lt (h : Fits offset psize ashift dcols nparity) : ashift < 64 := by
  have hlt := h.alloc_lt
  have hle := Nat.le_mul_of_pos_left (2 ^ ashift)
    (show 0 < allocSectors psize ashift dcols nparity + nparity + 1 by omega)
  exact (Nat.pow_lt_pow_iff_right (by decide : 1 < 2)).mp
    (show 2 ^ ashift < 2 ^ 64 by unfold word at hlt; omega)

theorem Fits.map_acols (h : Fits offset psize ashift dcols nparity) :
    (map offset psize ashift dcols nparity).acols =
      (shares (dataSectors psize ashift) dcols nparity).acols := by
  show (shares (divCeil psize (shl64 1 ashift)) dcols nparity).acols = _
  rw [shl64_one h.ashift_lt]
  rfl

theorem Fits.shared (h : Fits offset psize ashift dcols nparity) :
    Shared (dataSectors psize ashift) dcols nparity
      (shares (dataSectors psize ashift) dcols nparity) := by
  refine shares_spec h.parity_lt h.dcols_le ?_
  have hlt := h.alloc_lt
  have hle := Nat.le_mul_of_pos_right
    (allocSectors psize ashift dcols nparity + nparity + 1) (Nat.two_pow_pos ashift)
  unfold allocSectors at *
  omega

/-- The row below the first one is still inside 64 bits. -/
theorem Fits.nextRow (h : Fits offset psize ashift dcols nparity) (hd : 2 ≤ dcols) :
    (offset / 2 ^ ashift / dcols + 1) * 2 ^ ashift < word := by
  have hoff := h.offset_lt
  obtain ⟨k, hk⟩ : ∃ k, word = 2 ^ ashift * 2 ^ (k + 1) := by
    refine ⟨64 - ashift - 1, ?_⟩
    have := h.ashift_lt
    rw [word, ← Nat.pow_add]
    congr 1
    omega
  have hb : offset / 2 ^ ashift < 2 ^ (k + 1) := by
    rw [hk] at hoff
    exact Nat.div_lt_of_lt_mul hoff
  have hhalf : offset / 2 ^ ashift / dcols ≤ offset / 2 ^ ashift / 2 :=
    Nat.div_le_div_left hd (by decide)
  have hpow : 2 ^ (k + 1) = 2 * 2 ^ k := by rw [Nat.pow_succ, Nat.mul_comm]
  have hone : 1 ≤ 2 ^ k := Nat.one_le_two_pow
  rw [hk, Nat.mul_comm]
  exact Nat.mul_lt_mul_of_pos_left (by omega) (Nat.two_pow_pos ashift)

/-- Without wrapping the columns are those of the grid, up to the swap. -/
theorem map_cols (h : Fits offset psize ashift dcols nparity) :
    (map offset psize ashift dcols nparity).cols =
      let sh := shares (dataSectors psize ashift) dcols nparity
      let cols := gridColumns sh (offset / 2 ^ ashift) ashift dcols
      if nparity = 1 ∧ offset.testBit 20 = true then swapFirst cols else cols := by
  have hashift := h.ashift_lt
  have hunit := shl64_one hashift
  have hb : shr64 offset ashift = offset / 2 ^ ashift := shr64_of_lt hashift
  have hrow : shl64 (offset / 2 ^ ashift / dcols) ashift =
      offset / 2 ^ ashift / dcols * 2 ^ ashift := by
    apply shl64_of_lt hashift
    have h₁ : offset / 2 ^ ashift / dcols * 2 ^ ashift ≤ offset / 2 ^ ashift * 2 ^ ashift :=
      Nat.mul_le_mul_right _ (Nat.div_le_self _ _)
    have h₂ := Nat.div_mul_le_self offset (2 ^ ashift)
    have h₃ := h.offset_lt
    omega
  have htot : ((shares (dataSectors psize ashift) dcols nparity).tot + 1) * 2 ^ ashift < word := by
    have hlt := h.alloc_lt
    have heq := h.shared.tot_eq
    have hle : (allocSectors psize ashift dcols nparity + 1) * 2 ^ ashift ≤
        (allocSectors psize ashift dcols nparity + nparity + 1) * 2 ^ ashift :=
      Nat.mul_le_mul_right _ (by omega)
    rw [heq]
    unfold allocSectors at *
    omega
  have hcols : (List.range (shares (dataSectors psize ashift) dcols nparity).scols).map
      (stripeColumn (shares (dataSectors psize ashift) dcols nparity)
        (offset / 2 ^ ashift % dcols) (offset / 2 ^ ashift / dcols * 2 ^ ashift) (2 ^ ashift)
        ashift dcols) =
      gridColumns (shares (dataSectors psize ashift) dcols nparity) (offset / 2 ^ ashift) ashift
        dcols := by
    refine List.map_congr_left (fun c hc => ?_)
    exact stripeColumn_eq h.shared (List.mem_range.mp hc) h.dcols_le hashift h.nextRow htot
  unfold map
  simp only [hunit, hb, hrow]
  rw [← dataSectors, hcols]

/-- Up to order the columns are those of the grid. -/
theorem map_cols_perm (h : Fits offset psize ashift dcols nparity) :
    (map offset psize ashift dcols nparity).cols.Perm
      (gridColumns (shares (dataSectors psize ashift) dcols nparity) (offset / 2 ^ ashift) ashift
        dcols) := by
  rw [map_cols h]
  by_cases hswap : nparity = 1 ∧ offset.testBit 20 = true
  · rw [if_pos hswap]
    refine swapFirst_perm (fun c₀ c₁ rest hcols => ?_)
    obtain ⟨rfl, -⟩ := hswap
    have hsh := h.shared
    have hlen := congrArg List.length hcols
    simp only [gridColumns, List.length_map, List.length_range, List.length_cons] at hlen
    obtain ⟨n, hn⟩ : ∃ n, (shares (dataSectors psize ashift) dcols 1).scols = n + 2 := ⟨_, hlen⟩
    rw [gridColumns, hn, List.range_succ_eq_map, List.range_succ_eq_map] at hcols
    simp only [List.map_cons, List.cons.injEq] at hcols
    rw [← hcols.1, ← hcols.2.1]
    show _ * _ = _ * _
    rw [hsh.count_zero_one h.parity_lt]
  · rw [if_neg hswap]

theorem map_data_size (h : Fits offset psize ashift dcols nparity) :
    ((map offset psize ashift dcols nparity).data.map Column.size).sum =
      dataSectors psize ashift * 2 ^ ashift := by
  let sh := shares (dataSectors psize ashift) dcols nparity
  have hsh : Shared (dataSectors psize ashift) dcols nparity sh := h.shared
  have hsizes : (map offset psize ashift dcols nparity).cols.map Column.size =
      (List.range sh.scols).map (fun c => sh.count c * 2 ^ ashift) := by
    rw [map_cols h]
    have hgrid : (gridColumns sh (offset / 2 ^ ashift) ashift dcols).map Column.size =
        (List.range sh.scols).map (fun c => sh.count c * 2 ^ ashift) := by
      rw [gridColumns, List.map_map]
      rfl
    by_cases hswap : nparity = 1 ∧ offset.testBit 20 = true
    · rw [if_pos hswap, swapFirst_size]
      exact hgrid
    · rw [if_neg hswap]
      exact hgrid
  have hdata : (map offset psize ashift dcols nparity).data.map Column.size =
      ((List.range' nparity (sh.acols - nparity)).map sh.count).map (· * 2 ^ ashift) := by
    rw [Map.data, h.map_acols, List.map_drop, List.map_take, hsizes, ← List.map_take, List.take_range,
      Nat.min_eq_left hsh.acols_le, ← List.map_drop, List.range_eq_range', List.drop_range',
      List.map_map, Nat.mul_one, Nat.zero_add]
    rfl
  rw [hdata, List.sum_map_mul_right, List.map_id', hsh.sectors]
  by_cases hle : nparity ≤ sh.acols
  · have hcount : (List.range' nparity (sh.acols - nparity)).map sh.count =
        (List.range' nparity (sh.acols - nparity)).map
          (fun c => if c < sh.bc then sh.q + 1 else sh.q) := by
      refine List.map_congr_left (fun c hc => ?_)
      have := List.mem_range'_1.mp hc
      rw [Shares.count, if_neg (by omega)]
    rw [hcount, sum_share]
    have hacols := hsh.acols_eq
    have hbc := hsh.bc_lt
    have hlast := hsh.parity
    by_cases hq : sh.q = 0
    · rw [if_pos hq] at hacols
      rw [hq, Nat.mul_zero, Nat.mul_zero]
      congr 1
      omega
    · rw [if_neg hq] at hacols
      rw [hacols]
      congr 1
      omega
  · have hacols := hsh.acols_eq
    have hlast := hsh.parity
    have hq : sh.q = 0 := by
      by_contra hq
      rw [if_neg hq] at hacols
      have := h.parity_lt
      omega
    rw [if_pos hq] at hacols
    rw [Nat.sub_eq_zero_of_le (by omega), hq, Nat.mul_zero]
    congr 1
    show 0 = 0 + (sh.bc - nparity)
    omega

theorem cell_inj {d i j : Nat} (h : cell ashift d i = cell ashift d j) : i = j := by
  have hmod : i % d = j % d := congrArg Prod.fst h
  have hdiv : i / d = j / d :=
    Nat.eq_of_mul_eq_mul_right (Nat.two_pow_pos ashift) (congrArg Prod.snd h)
  have hi := Nat.div_add_mod i d
  have hj := Nat.div_add_mod j d
  rw [hdiv, hmod] at hi
  omega

/-- As long as nothing wraps, the columns are the allocation of the block. -/
theorem Fits.laidOut (h : Fits offset psize ashift dcols nparity) :
    LaidOut offset psize ashift dcols nparity := by
  have hperm := map_cols_perm h
  have hsh := h.shared
  have hcovers := (hperm.flatMap_right (Column.sectors ashift)).trans
    (gridColumns_perm hsh (offset / 2 ^ ashift) ashift)
  rw [hsh.tot_eq] at hcovers
  refine { aligned := ?_, covers := hcovers, once := ?_, children := ⟨?_, ?_⟩,
           data := map_data_size h }
  · intro c hc
    obtain ⟨i, -, rfl⟩ := List.mem_map.mp (hperm.mem_iff.mp hc)
    exact ⟨Nat.dvd_mul_left _ _, Nat.dvd_mul_left _ _⟩
  · refine hcovers.nodup_iff.mpr (List.nodup_range.map (fun i j hij => ?_))
    have := cell_inj hij
    omega
  · exact (hperm.map _).nodup_iff.mpr (gridColumns_devidx_nodup hsh _ _)
  · intro c hc
    obtain ⟨i, -, rfl⟩ := List.mem_map.mp (hperm.mem_iff.mp hc)
    exact Nat.mod_lt _ (by have := h.parity_lt; omega)

/-- A byte that a column holds lies in one of the allocated sectors. -/
theorem LaidOut.sector_of_holds (h : LaidOut offset psize ashift dcols nparity) {c : Column}
    (hc : c ∈ (map offset psize ashift dcols nparity).cols) {child byte : Nat}
    (hbyte : c.Holds child byte) :
    ∃ i < allocSectors psize ashift dcols nparity,
      cell ashift dcols (offset / 2 ^ ashift + i) = (child, byte / 2 ^ ashift * 2 ^ ashift) := by
  obtain ⟨hchild, hlo, hhi⟩ := hbyte
  obtain ⟨⟨o, ho⟩, ⟨n, hn⟩⟩ := h.aligned c hc
  have hpos := Nat.two_pow_pos ashift
  have ho' : o ≤ byte / 2 ^ ashift := (Nat.le_div_iff_mul_le hpos).mpr (by rw [Nat.mul_comm]; omega)
  have hn' : byte / 2 ^ ashift < o + n := by
    rw [Nat.div_lt_iff_lt_mul hpos, Nat.mul_comm, Nat.mul_add]
    omega
  have hmem : (child, byte / 2 ^ ashift * 2 ^ ashift) ∈
      (map offset psize ashift dcols nparity).cols.flatMap (Column.sectors ashift) := by
    refine List.mem_flatMap.mpr ⟨c, hc, List.mem_map.mpr ⟨byte / 2 ^ ashift - o, ?_, ?_⟩⟩
    · rw [hn, Nat.mul_div_cancel_left _ hpos, List.mem_range]
      omega
    · rw [hchild, ho, Nat.mul_comm (2 ^ ashift) o, ← Nat.add_mul, Nat.add_sub_cancel' ho']
  obtain ⟨i, hi, heq⟩ := List.mem_map.mp (h.covers.mem_iff.mp hmem)
  exact ⟨i, List.mem_range.mp hi, heq⟩

end Map

/-- The columns are the allocation, and disjoint allocations share no byte. -/
theorem map_laidOut {offset psize ashift dcols nparity : Nat}
    (h : Fits offset psize ashift dcols nparity) :
    LaidOut offset psize ashift dcols nparity ∧
    ∀ offset' psize', Fits offset' psize' ashift dcols nparity →
      (∀ i, ¬ ((offset / 2 ^ ashift ≤ i ∧
          i < offset / 2 ^ ashift + allocSectors psize ashift dcols nparity) ∧
        (offset' / 2 ^ ashift ≤ i ∧
          i < offset' / 2 ^ ashift + allocSectors psize' ashift dcols nparity))) →
      ∀ c ∈ (map offset psize ashift dcols nparity).cols,
      ∀ c' ∈ (map offset' psize' ashift dcols nparity).cols,
      ∀ child byte, ¬ (c.Holds child byte ∧ c'.Holds child byte) := by
  refine ⟨h.laidOut, fun offset' psize' h' hdisj c hc c' hc' child byte hboth => ?_⟩
  obtain ⟨i, hi, heq⟩ := h.laidOut.sector_of_holds hc hboth.1
  obtain ⟨j, hj, heq'⟩ := h'.laidOut.sector_of_holds hc' hboth.2
  have hsame := cell_inj (heq.trans heq'.symm)
  exact hdisj (offset / 2 ^ ashift + i) ⟨⟨by omega, by omega⟩, by omega, by omega⟩

theorem map_laidOut_two_blocks :
    LaidOut 0x100400 3072 9 4 1 ∧
    ∀ c ∈ (map 0x100400 3072 9 4 1).cols, ∀ c' ∈ (map 0x101400 512 9 4 1).cols,
      ∀ child byte, ¬ (c.Holds child byte ∧ c'.Holds child byte) := by
  have h : Fits 0x100400 3072 9 4 1 := by constructor <;> decide
  have h' : Fits 0x101400 512 9 4 1 := by constructor <;> decide
  refine ⟨(map_laidOut h).1, (map_laidOut h).2 _ _ h' (fun i hi => ?_)⟩
  have hsize : allocSectors 3072 9 4 1 = 8 := by decide
  rw [hsize] at hi
  omega

/-- A block of `2 ^ 64 - 1` bytes: the column sizes wrap to zero. -/
theorem map_wraps : ¬ LaidOut 0 (2 ^ 64 - 1) 9 2 1 := by
  intro h
  exact absurd h.data (by decide)

end Raidz
end ZvolRescue
