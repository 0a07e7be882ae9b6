import Mathlib.Data.List.GetD
import Mathlib.Data.List.Nodup
import Mathlib.Data.List.Perm.Basic
import Mathlib.Data.Nat.ModEq
import ZvolRescue.Draid.Maps
import ZvolRescue.Lib.Word
import ZvolRescue.Ondisk.Fletcher

/-!
# The configuration of a dRAID vdev

`Config.new` checks the geometry, regenerates the permutation rows from the seed that is
shipped for the number of children, and compares their checksum.  Each row is a shuffle
of the row before, so it is a permutation of the children whatever the generator yields
(`permRows_perm`), and the children of the columns of a row are distinct (`permute_inj`).
-/

namespace ZvolRescue
namespace Draid

open Lib Ondisk

/-- A row is 16 MiB per child. -/
def rowShift : Nat := 24

def rowHeight : Nat := 2 ^ rowShift

/-- The fixed half of the generator's seed. -/
def seedWord : UInt64 := 0xd7a1d5eed

def maxParity : Nat := 3

inductive DraidError where
  | noMap (children : Nat)
  | geometry (message : String)
  | mapChecksum (children : Nat) (expected got : UInt64)
  deriving DecidableEq, Repr

/-! ## The generator -/

def rotateLeft (x : UInt64) (k : UInt64) : UInt64 := (x <<< k) ||| (x >>> (64 - k))

/-- The state of the generator. -/
structure Rng where
  s0 : UInt64
  s1 : UInt64

def rand (s : Rng) : UInt64 × Rng :=
  let result := rotateLeft (s.s0 + s.s1) 17 + s.s0
  let s1 := s.s1 ^^^ s.s0
  (result, { s0 := rotateLeft s.s0 49 ^^^ s1 ^^^ (s1 <<< 21), s1 := rotateLeft s1 28 })

def swap (row : List UInt8) (i j : Nat) : List UInt8 :=
  (row.set i (row.getD j 0)).set j (row.getD i 0)

/-- The rounds `j`, `j - 1`, …, `1` of the Fisher-Yates shuffle. -/
def shuffle : Nat → Rng → List UInt8 → List UInt8 × Rng
  | 0, rng, row => (row, rng)
  | j + 1, rng, row =>
    let (v, rng) := rand rng
    shuffle j rng (swap row (j + 1) (v.toNat % (j + 2)))

/-- `nperms` rows of `n` entries, each a shuffle of the row before. -/
def permRows (n : Nat) : Nat → Rng → List UInt8 → List (List UInt8)
  | 0, _, _ => []
  | nperms + 1, rng, previous =>
    let (row, rng) := shuffle (n - 1) rng previous
    row :: permRows n nperms rng row

def generatePerms (children nperms : Nat) (seed : UInt64) : List UInt8 :=
  (permRows children nperms { s0 := seedWord, s1 := seed }
    ((List.range (children % 256)).map UInt8.ofNat)).flatten

/-! ## The configuration -/

structure Config where
  ndata : Nat
  nparity : Nat
  nspares : Nat
  children : Nat
  /-- Groups in a slice. -/
  ngroups : Nat
  nperms : Nat
  /-- `nperms * children` child indices. -/
  perms : List UInt8
  groupwidth : Nat
  ndisks : Nat
  groupsz : Nat
  devslicesz : Nat
  deriving DecidableEq, Repr

namespace Config

/-- Build and verify the configuration. -/
def new (ndata nparity nspares children ngroups : Nat) : Except DraidError Config :=
  if nparity = 0 ∨ nparity > maxParity then .error (.geometry s!"nparity {nparity}")
  else if ngroups = 0 ∨ children < add64 (add64 ndata nparity) nspares ∨ ndata = 0 then
    .error (.geometry (s!"ndata {ndata} + nparity {nparity} + nspares {nspares} does not fit " ++
      s!"{children} children (ngroups {ngroups})"))
  else match maps.find? (fun m => m.children = children) with
    | none => .error (.noMap children)
    | some m =>
      let perms := generatePerms children m.nperms m.seed
      let got := (fletcher4 perms .little).w0
      if got ≠ m.checksum then .error (.mapChecksum children m.checksum got)
      else
        let groupwidth := add64 ndata nparity
        let ndisks := sub64 children nspares
        if groupwidth > ndisks ∨ mul64 groupwidth ngroups % ndisks ≠ 0 then
          .error (.geometry s!"groupwidth {groupwidth}, ndisks {ndisks}, ngroups {ngroups}")
        else
          let groupsz := mul64 groupwidth rowHeight
          .ok { ndata, nparity, nspares, children, ngroups, nperms := m.nperms, perms, groupwidth,
                ndisks, groupsz, devslicesz := mul64 groupsz ngroups / ndisks }

/-- The child that holds logical column `index` of permutation `pindex`. -/
def permute (cfg : Config) (pindex index : Nat) : Nat :=
  let ncols := cfg.children
  let poff := pindex % (cfg.nperms * ncols)
  let iter := poff % ncols
  ((cfg.perms.getD (poff / ncols * ncols + index) 0).toNat + iter) % ncols

end Config

/-! ## Every row is a permutation -/

theorem swap_perm {row : List UInt8} {i j : Nat} (hi : i < row.length) (hj : j < row.length) :
    (swap row i j).Perm row := by
  have h := List.set_set_perm hi hj
  rwa [swap, List.getD_eq_getElem?_getD, List.getD_eq_getElem?_getD, List.getElem?_eq_getElem hi,
    List.getElem?_eq_getElem hj]

theorem shuffle_perm {j : Nat} {rng : Rng} {row : List UInt8} (hj : j < row.length ∨ j = 0) :
    (shuffle j rng row).1.Perm row := by
  induction j generalizing rng row with
  | zero => exact List.Perm.refl row
  | succ j ih =>
    have hlen : j + 1 < row.length := by omega
    have hk : (rand rng).1.toNat % (j + 2) < row.length :=
      Nat.lt_of_lt_of_le (Nat.mod_lt _ (by omega)) hlen
    have hswap := swap_perm hlen hk
    have hlen' : j < (swap row (j + 1) ((rand rng).1.toNat % (j + 2))).length := by
      rw [hswap.length_eq]
      omega
    exact (ih (Or.inl hlen')).trans hswap

theorem permRows_perm {n nperms : Nat} {rng : Rng} {previous row : List UInt8}
    (hn : previous.length = n) (h : row ∈ permRows n nperms rng previous) : row.Perm previous := by
  induction nperms generalizing rng previous with
  | zero => exact absurd h List.not_mem_nil
  | succ nperms ih =>
    have hstep : (shuffle (n - 1) rng previous).1.Perm previous := shuffle_perm (by omega)
    rcases List.mem_cons.mp h with rfl | h
    · exact hstep
    · exact (ih (hstep.length_eq.trans hn) h).trans hstep

theorem permRows_length (n nperms : Nat) (rng : Rng) (previous : List UInt8) :
    (permRows n nperms rng previous).length = nperms := by
  induction nperms generalizing rng previous with
  | zero => rfl
  | succ nperms ih => exact congrArg (· + 1) (ih _ _)

/-- An entry of the rows laid end to end. -/
theorem getD_flatten {n r i : Nat} {rows : List (List UInt8)} (hrows : ∀ row ∈ rows, row.length = n)
    (hi : i < n) (hr : r < rows.length) :
    rows.flatten.getD (r * n + i) 0 = (rows.getD r []).getD i 0 := by
  induction rows generalizing r with
  | nil => exact absurd hr (Nat.not_lt_zero r)
  | cons row rows ih =>
    have hlen := hrows row List.mem_cons_self
    rw [List.flatten_cons]
    cases r with
    | zero =>
      rw [Nat.zero_mul, Nat.zero_add, List.getD_append _ _ _ _ (by omega)]
      rfl
    | succ r =>
      have hle : row.length ≤ (r + 1) * n + i := by
        rw [hlen, Nat.add_mul]
        omega
      have hsub : (r + 1) * n + i - row.length = r * n + i := by
        rw [hlen, Nat.add_mul]
        omega
      rw [List.getD_append_right _ _ _ _ hle, hsub,
        ih (fun row' h => hrows row' (List.mem_cons_of_mem _ h)) (Nat.lt_of_succ_lt_succ hr)]
      rfl

/-! ## What an accepted configuration is -/

/-- The facts that `Config.new` establishes when its 64-bit arithmetic does not wrap. -/
structure WellFormed (cfg : Config) : Prop where
  ndata_pos : 0 < cfg.ndata
  nparity_pos : 0 < cfg.nparity
  ngroups_pos : 0 < cfg.ngroups
  nperms_pos : 0 < cfg.nperms
  groupwidth_eq : cfg.groupwidth = cfg.ndata + cfg.nparity
  spares : cfg.ndisks + cfg.nspares = cfg.children
  children_le : cfg.children ≤ 255
  groupwidth_le : cfg.groupwidth ≤ cfg.ndisks
  slice : cfg.ndisks ∣ cfg.groupwidth * cfg.ngroups
  slice_lt : cfg.groupsz * cfg.ngroups < word
  groupsz_eq : cfg.groupsz = cfg.groupwidth * rowHeight
  devslicesz_eq : cfg.devslicesz = cfg.groupsz * cfg.ngroups / cfg.ndisks
  rows : ∀ r < cfg.nperms, ((List.range cfg.children).map
    (fun i => (cfg.perms.getD (r * cfg.children + i) 0).toNat)).Perm (List.range cfg.children)

theorem generatePerms_row {children nperms : Nat} (seed : UInt64) (hchildren : children ≤ 255)
    {r : Nat} (hr : r < nperms) :
    ((List.range children).map (fun i =>
      ((generatePerms children nperms seed).getD (r * children + i) 0).toNat)).Perm
      (List.range children) := by
  let initial : List UInt8 := (List.range (children % 256)).map UInt8.ofNat
  let rows := permRows children nperms { s0 := seedWord, s1 := seed } initial
  have hinitial : initial.map UInt8.toNat = List.range children := by
    have hmod : children % 256 = children := Nat.mod_eq_of_lt (by omega)
    simp only [initial]
    rw [hmod, List.map_map]
    refine (List.map_congr_left (fun i hi => ?_)).trans (List.map_id _)
    have hlt := List.mem_range.mp hi
    show (UInt8.ofNat i).toNat = i
    rw [UInt8.toNat_ofNat', Nat.mod_eq_of_lt (by omega)]
  have hlen : initial.length = children := by
    have h := congrArg List.length hinitial
    rwa [List.length_map, List.length_range] at h
  have hperm : ∀ row ∈ rows, row.Perm initial := fun row hrow => permRows_perm hlen hrow
  have hrow : r < rows.length := by rwa [permRows_length]
  have hmem : rows.getD r [] ∈ rows := by
    rw [List.getD_eq_getElem _ _ hrow]
    exact List.getElem_mem hrow
  have hentry : (List.range children).map (fun i =>
      ((generatePerms children nperms seed).getD (r * children + i) 0).toNat) =
      (rows.getD r []).map UInt8.toNat := by
    apply List.ext_getElem
    · rw [List.length_map, List.length_map, List.length_range, (hperm _ hmem).length_eq, hlen]
    · intro i h₁ h₂
      rw [List.length_map, List.length_range] at h₁
      rw [List.length_map] at h₂
      rw [List.getElem_map, List.getElem_map, List.getElem_range]
      show (rows.flatten.getD (r * children + i) 0).toNat = _
      rw [getD_flatten (fun row h => ((hperm row h).length_eq).trans hlen) h₁ hrow,
        List.getD_eq_getElem _ _ h₂]
  rw [hentry, ← hinitial]
  exact (hperm _ hmem).map _

/-- What `Config.new` accepts is well formed, unless the sums or products wrapped. -/
theorem Config.new_wellFormed {ndata nparity nspares children ngroups : Nat} {cfg : Config}
    (h : Config.new ndata nparity nspares children ngroups = .ok cfg)
    (hsum : ndata + nparity + nspares < word)
    (hslice : (ndata + nparity) * rowHeight * ngroups < word) : WellFormed cfg := by
  unfold Config.new at h
  split at h
  · exact absurd h (by simp)
  split at h
  · exact absurd h (by simp)
  next hnparity hgeometry =>
  split at h
  · exact absurd h (by simp)
  next m hm =>
  have hmem := List.mem_of_find?_eq_some hm
  have hchildren : m.children = children := by simpa using List.find?_some hm
  obtain ⟨-, hbyte, hnperms⟩ := maps_bounds m hmem
  dsimp only at h
  split at h
  · exact absurd h (by simp)
  split at h
  · exact absurd h (by simp)
  next hwidth =>
  have hadd : add64 ndata nparity = ndata + nparity := add64_of_lt (by omega)
  have hadd' : add64 (ndata + nparity) nspares = ndata + nparity + nspares := add64_of_lt hsum
  rw [hadd, hadd'] at hgeometry
  have hngroups : 0 < ngroups := by omega
  have hgroup : (ndata + nparity) * rowHeight < word :=
    Nat.lt_of_le_of_lt (Nat.le_mul_of_pos_right _ hngroups) hslice
  have hgroups : (ndata + nparity) * ngroups < word := by
    refine Nat.lt_of_le_of_lt ?_ hslice
    rw [Nat.mul_right_comm]
    exact Nat.le_mul_of_pos_right _ (Nat.two_pow_pos rowShift)
  have hsub : sub64 children nspares = children - nspares :=
    sub64_of_le (by unfold word; omega) (by omega)
  rw [hadd, hsub, mul64_of_lt hgroups] at hwidth
  rw [hadd, hsub, mul64_of_lt hgroup, mul64_of_lt hslice, Except.ok.injEq] at h
  rw [← h]
  exact
    { ndata_pos := by show 0 < ndata; omega
      nparity_pos := by show 0 < nparity; omega
      ngroups_pos := hngroups
      nperms_pos := hnperms
      groupwidth_eq := rfl
      spares := by show children - nspares + nspares = children; omega
      children_le := by show children ≤ 255; omega
      groupwidth_le := by show ndata + nparity ≤ children - nspares; omega
      slice := by
        show children - nspares ∣ (ndata + nparity) * ngroups
        exact Nat.dvd_of_mod_eq_zero (by omega)
      slice_lt := hslice
      groupsz_eq := rfl
      devslicesz_eq := rfl
      rows := fun r hr => by
        rw [← hchildren]
        exact generatePerms_row m.seed hbyte hr }

/-- The children of one permutation are distinct. -/
theorem permute_inj {cfg : Config} (h : WellFormed cfg) {p i j : Nat} (hi : i < cfg.children)
    (hj : j < cfg.children) (heq : cfg.permute p i = cfg.permute p j) : i = j := by
  have hpos : 0 < cfg.children := by omega
  have hr : p % (cfg.nperms * cfg.children) / cfg.children < cfg.nperms := by
    refine (Nat.div_lt_iff_lt_mul hpos).mpr (Nat.mod_lt _ (Nat.mul_pos h.nperms_pos hpos))
  have hrow := h.rows _ hr
  have hlt : ∀ k < cfg.children, (cfg.perms.getD (p % (cfg.nperms * cfg.children) / cfg.children *
      cfg.children + k) 0).toNat < cfg.children := by
    intro k hk
    exact List.mem_range.mp (hrow.mem_iff.mp
      (List.mem_map.mpr ⟨k, List.mem_range.mpr hk, rfl⟩))
  have hbase := Nat.ModEq.add_right_cancel' _ heq
  rw [Nat.ModEq, Nat.mod_eq_of_lt (hlt i hi), Nat.mod_eq_of_lt (hlt j hj)] at hbase
  exact List.inj_on_of_nodup_map (hrow.nodup_iff.mpr List.nodup_range) (List.mem_range.mpr hi)
    (List.mem_range.mpr hj) hbase

theorem permute_lt {cfg : Config} (h : WellFormed cfg) (p i : Nat) :
    cfg.permute p i < cfg.children := by
  have hle := h.groupwidth_le
  have hspares := h.spares
  have hwidth := h.groupwidth_eq
  have hndata := h.ndata_pos
  exact Nat.mod_lt _ (by omega)

end Draid
end ZvolRescue
