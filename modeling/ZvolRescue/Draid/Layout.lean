import ZvolRescue.Draid.Config
import ZvolRescue.Raidz.Map

/-!
# The layout of a block on a dRAID vdev

The logical space is a sequence of rows of `groupwidth` sectors.  `address` says where
sector `i` of row `r` lies, and `address_inj` that no two sectors lie in one place.
`row_cols` is the refinement: the columns of `Config.row` are runs of addresses in
consecutive rows.  Blocks in disjoint ranges then share no byte, and a block that crosses
into the next group is covered once, provided it starts on a row and spans at most one
group (`map_injective`).
-/

namespace ZvolRescue
namespace Draid

open Lib Raidz

namespace Config

/-- Bytes allocated for `psize` bytes of data. -/
def asize (cfg : Config) (psize ashift : Nat) : Nat :=
  let rows := add64 (sub64 psize 1 / shl64 cfg.ndata ashift) 1
  shl64 (mul64 rows cfg.groupwidth) ashift

def asizeToPsize (cfg : Config) (asize : Nat) : Nat := mul64 (asize / cfg.groupwidth) cfg.ndata

/-- Where the row of a logical offset lies on the children. -/
structure Physical where
  /-- Byte offset on the child. -/
  offset : Nat
  perm : Nat
  /-- Position of the row's first column in the permutation. -/
  groupstart : Nat

def logicalToPhysical (cfg : Config) (logical ashift : Nat) : Physical :=
  let rowheightSectors := shr64 rowHeight ashift
  let group := logical / cfg.groupsz
  let groupstart := mul64 group cfg.groupwidth % cfg.ndisks
  let bOffset := shr64 logical ashift % mul64 rowheightSectors cfg.groupwidth
  let perm := group / cfg.ngroups
  let row := add64 (mul64 perm (mul64 cfg.groupwidth cfg.ngroups / cfg.ndisks))
    (mul64 (group % cfg.ngroups) cfg.groupwidth / cfg.ndisks)
  { offset := shl64 (add64 (mul64 rowheightSectors row) (bOffset / cfg.groupwidth)) ashift
    perm, groupstart }

/-- One row for `ioSize` bytes at logical `ioOffset`. -/
def row (cfg : Config) (ioOffset ioSize ashift : Nat) : Map :=
  let at_ := cfg.logicalToPhysical ioOffset ashift
  let wrap :=
    if add64 at_.groupstart cfg.groupwidth > cfg.ndisks then cfg.ndisks - at_.groupstart
    else cfg.groupwidth
  let psize := shr64 ioSize ashift
  let q := psize / cfg.ndata
  let r := psize - q * cfg.ndata
  let bc := if r = 0 then 0 else add64 r cfg.nparity
  let tot := add64 psize (mul64 cfg.nparity (add64 q (if r ≠ 0 then 1 else 0)))
  { cols := (List.range cfg.groupwidth).map (fun i =>
      { devidx := cfg.permute at_.perm (add64 at_.groupstart i % cfg.ndisks)
        -- From column `wrap` on the row continues on the first disks, one row height down.
        offset := if wrap ≤ i then add64 at_.offset rowHeight else at_.offset
        size :=
          if q = 0 ∧ i ≥ bc then 0
          else if i < bc then shl64 (add64 q 1) ashift
          else shl64 q ashift })
    nparity := cfg.nparity
    acols := cfg.groupwidth
    bigcols := bc
    asize := shl64 tot ashift
    nskip := mul64 (divCeil tot cfg.groupwidth) cfg.groupwidth - tot }

/-- The one or two rows holding `psize` bytes at top-level offset `offset`. -/
def map (cfg : Config) (offset psize ashift : Nat) : List Map :=
  let group := offset / cfg.groupsz
  let nextGroup := mul64 (add64 group 1) cfg.groupsz
  let ioSize :=
    if add64 offset (cfg.asize psize ashift) > nextGroup then
      cfg.asizeToPsize (sub64 nextGroup offset)
    else psize
  let first := cfg.row offset ioSize ashift
  if ioSize < psize then
    [first, cfg.row (add64 offset (cfg.asize ioSize ashift)) (psize - ioSize) ashift]
  else [first]

/-- The child that distributed spare `spareId` stands for at a child offset. -/
def spareChild (cfg : Config) (spareId physicalOffset : Nat) : Nat :=
  let perm := physicalOffset / cfg.devslicesz
  cfg.permute perm (sub64 (sub64 cfg.children 1) spareId)

end Config

/-! ## Addresses -/

/-- The sectors of a row height. -/
def height (ashift : Nat) : Nat := rowHeight / 2 ^ ashift

/-- The position of column `i` of a group's rows in the grid of the disks. -/
def place (cfg : Config) (g i : Nat) : Nat := g * cfg.groupwidth + i

/-- The child and the byte offset of sector `i` of logical row `r`. -/
def address (cfg : Config) (ashift r i : Nat) : Nat × Nat :=
  let g := r / height ashift
  (cfg.permute (g / cfg.ngroups) (place cfg g i % cfg.ndisks),
    place cfg g i / cfg.ndisks * rowHeight + r % height ashift * 2 ^ ashift)

section Address

variable {cfg : Config} {ashift : Nat}

theorem height_mul (hashift : ashift ≤ rowShift) : height ashift * 2 ^ ashift = rowHeight :=
  Nat.div_mul_cancel (Nat.pow_dvd_pow 2 hashift)

theorem height_pos (hashift : ashift ≤ rowShift) : 0 < height ashift :=
  Nat.div_pos (Nat.pow_le_pow_right (by decide) hashift) (Nat.two_pow_pos ashift)

theorem WellFormed.ndisks_pos (h : WellFormed cfg) : 0 < cfg.ndisks := by
  have := h.groupwidth_le
  have := h.groupwidth_eq
  have := h.ndata_pos
  omega

theorem WellFormed.ndisks_le (h : WellFormed cfg) : cfg.ndisks ≤ 255 := by
  have := h.spares
  have := h.children_le
  omega

/-- The rows of the grid of disks in one slice. -/
def sliceRows (cfg : Config) : Nat := cfg.groupwidth * cfg.ngroups / cfg.ndisks

theorem WellFormed.sliceRows_mul (h : WellFormed cfg) :
    sliceRows cfg * cfg.ndisks = cfg.groupwidth * cfg.ngroups :=
  Nat.div_mul_cancel h.slice

/-- A row of the grid of disks lies in the slice of the groups in it. -/
theorem WellFormed.slice_of_place (h : WellFormed cfg) {g i : Nat} (hi : i < cfg.groupwidth) :
    place cfg g i / cfg.ndisks / sliceRows cfg = g / cfg.ngroups := by
  have hmul := h.sliceRows_mul
  have hg : place cfg g i / cfg.groupwidth = g := by
    rw [place, Nat.mul_comm, Nat.mul_add_div (by omega), Nat.div_eq_of_lt hi, Nat.add_zero]
  rw [Nat.div_div_eq_div_mul, Nat.mul_comm cfg.ndisks, hmul, ← Nat.div_div_eq_div_mul, hg]

/-- Row and sector of an offset below a whole number of row heights. -/
theorem split_offset {a b j k : Nat} (hashift : ashift ≤ rowShift) (hj : j < height ashift)
    (hk : k < height ashift) (h : a * rowHeight + j * 2 ^ ashift = b * rowHeight + k * 2 ^ ashift) :
    a = b ∧ j = k := by
  rw [← height_mul hashift, ← Nat.mul_assoc, ← Nat.mul_assoc, ← Nat.add_mul, ← Nat.add_mul] at h
  have hsum := Nat.eq_of_mul_eq_mul_right (Nat.two_pow_pos ashift) h
  have ha : (a * height ashift + j) / height ashift = a := by
    rw [Nat.mul_comm, Nat.mul_add_div (by omega), Nat.div_eq_of_lt hj, Nat.add_zero]
  have hb : (b * height ashift + k) / height ashift = b := by
    rw [Nat.mul_comm, Nat.mul_add_div (by omega), Nat.div_eq_of_lt hk, Nat.add_zero]
  have hab : a = b := by rw [← ha, ← hb, hsum]
  subst hab
  exact ⟨rfl, by omega⟩

/-- No two sectors lie in one place. -/
theorem address_inj (h : WellFormed cfg) (hashift : ashift ≤ rowShift) {r s i j : Nat}
    (hi : i < cfg.groupwidth) (hj : j < cfg.groupwidth)
    (heq : address cfg ashift r i = address cfg ashift s j) : r = s ∧ i = j := by
  have hpos := height_pos hashift
  have hdisks := h.ndisks_pos
  obtain ⟨hrow, hsector⟩ := split_offset hashift (Nat.mod_lt r hpos) (Nat.mod_lt s hpos)
    (congrArg Prod.snd heq)
  have hperm := h.slice_of_place (g := r / height ashift) hi
  rw [hrow, h.slice_of_place hj] at hperm
  have hchild := congrArg Prod.fst heq
  simp only [address] at hchild
  rw [← hperm] at hchild
  have hlt : ∀ p, p % cfg.ndisks < cfg.children := fun p => by
    have := Nat.mod_lt p hdisks
    have := h.spares
    omega
  have hcol := permute_inj h (hlt _) (hlt _) hchild
  have hplace : place cfg (r / height ashift) i = place cfg (s / height ashift) j := by
    rw [← Nat.div_add_mod (place cfg (r / height ashift) i) cfg.ndisks, hrow, hcol,
      Nat.div_add_mod]
  have hgroup : ∀ g k, k < cfg.groupwidth → place cfg g k / cfg.groupwidth = g ∧
      place cfg g k % cfg.groupwidth = k := by
    intro g k hk
    constructor
    · rw [place, Nat.mul_comm, Nat.mul_add_div (by omega), Nat.div_eq_of_lt hk, Nat.add_zero]
    · rw [place, Nat.mul_comm, Nat.mul_add_mod, Nat.mod_eq_of_lt hk]
  obtain ⟨hgr, hir⟩ := hgroup (r / height ashift) i hi
  obtain ⟨hgs, hjs⟩ := hgroup (s / height ashift) j hj
  rw [hplace] at hgr hir
  have hrs : r / height ashift = s / height ashift := hgr.symm.trans hgs
  refine ⟨?_, hir.symm.trans hjs⟩
  rw [← Nat.div_add_mod r (height ashift), hrs, hsector, Nat.div_add_mod]

end Address

/-! ## The columns of a row -/

/-- `n` sectors at logical row `r`, inside one group and below 2^64 bytes. -/
structure Run (cfg : Config) (ashift r n : Nat) : Prop where
  ashift_le : ashift ≤ rowShift
  inside : r % height ashift + divCeil n cfg.ndata ≤ height ashift
  fits : (r / height ashift + 1) * cfg.groupsz < word

/-- The byte offset of logical row `r`. -/
def rowOffset (cfg : Config) (ashift r : Nat) : Nat := r * cfg.groupwidth * 2 ^ ashift

section Row

variable {cfg : Config} {ashift r n : Nat}

theorem WellFormed.groupsz_height (h : WellFormed cfg) (hashift : ashift ≤ rowShift) :
    cfg.groupsz = height ashift * (cfg.groupwidth * 2 ^ ashift) := by
  rw [h.groupsz_eq, ← height_mul hashift, Nat.mul_left_comm]

theorem WellFormed.groupwidth_ge (h : WellFormed cfg) : 2 ≤ cfg.groupwidth := by
  have := h.groupwidth_eq
  have := h.ndata_pos
  have := h.nparity_pos
  omega

theorem WellFormed.group_of_row (h : WellFormed cfg) (hashift : ashift ≤ rowShift) (r : Nat) :
    rowOffset cfg ashift r / cfg.groupsz = r / height ashift := by
  have hwidth := h.groupwidth_ge
  rw [rowOffset, h.groupsz_height hashift, Nat.mul_assoc,
    Nat.mul_div_mul_right _ _ (Nat.mul_pos (by omega) (Nat.two_pow_pos ashift))]

/-- Where a row starts, without the wrapping. -/
theorem logicalToPhysical_eq (h : WellFormed cfg) (hashift : ashift ≤ rowShift)
    (hfits : (r / height ashift + 1) * cfg.groupsz < word) :
    cfg.logicalToPhysical (rowOffset cfg ashift r) ashift =
      { offset := place cfg (r / height ashift) 0 / cfg.ndisks * rowHeight +
          r % height ashift * 2 ^ ashift
        perm := r / height ashift / cfg.ngroups
        groupstart := place cfg (r / height ashift) 0 % cfg.ndisks } := by
  obtain ⟨g, hg⟩ : ∃ g, r / height ashift = g := ⟨_, rfl⟩
  rw [hg] at hfits ⊢
  have hpos := Nat.two_pow_pos ashift
  have hheight := height_pos hashift
  have hwidth := h.groupwidth_ge
  have hdisks := h.ndisks_pos
  have hlt64 : ashift < 64 := by unfold rowShift at hashift; omega
  have hrh : shr64 rowHeight ashift = height ashift := shr64_of_lt hlt64
  have hgroup : rowOffset cfg ashift r / cfg.groupsz = g := (h.group_of_row hashift r).trans hg
  have hsector : shr64 (rowOffset cfg ashift r) ashift = r * cfg.groupwidth := by
    rw [shr64_of_lt hlt64, rowOffset, Nat.mul_div_cancel _ hpos]
  -- Everything in sight is at most the end of the group.
  have hbytes : (g + 1) * cfg.groupsz = g * cfg.groupwidth * rowHeight + cfg.groupsz := by
    rw [Nat.add_mul, Nat.one_mul, h.groupsz_eq, Nat.mul_assoc]
  have hgw : g * cfg.groupwidth ≤ g * cfg.groupwidth * rowHeight :=
    Nat.le_mul_of_pos_right _ (Nat.two_pow_pos rowShift)
  have hmul : mul64 g cfg.groupwidth = g * cfg.groupwidth := mul64_of_lt (by omega)
  have hmod : ∀ k ≤ g, mul64 k cfg.groupwidth = k * cfg.groupwidth := fun k hk => by
    have := Nat.mul_le_mul_right cfg.groupwidth hk
    exact mul64_of_lt (by omega)
  have hslice : mul64 cfg.groupwidth cfg.ngroups = cfg.groupwidth * cfg.ngroups := by
    refine mul64_of_lt (Nat.lt_of_le_of_lt ?_ h.slice_lt)
    rw [h.groupsz_eq, Nat.mul_right_comm]
    exact Nat.le_mul_of_pos_right _ (Nat.two_pow_pos rowShift)
  have hslices := h.sliceRows_mul
  have hheights : mul64 (height ashift) cfg.groupwidth = height ashift * cfg.groupwidth := by
    have hle : height ashift * cfg.groupwidth ≤ cfg.groupsz := by
      rw [h.groupsz_height hashift]
      exact Nat.mul_le_mul_left _ (Nat.le_mul_of_pos_right _ hpos)
    exact mul64_of_lt (by omega)
  have hboff : r * cfg.groupwidth % (height ashift * cfg.groupwidth) / cfg.groupwidth =
      r % height ashift := by
    rw [Nat.mul_mod_mul_right, Nat.mul_div_cancel _ (by omega)]
  have hrow : g / cfg.ngroups * sliceRows cfg + g % cfg.ngroups * cfg.groupwidth / cfg.ndisks =
      g * cfg.groupwidth / cfg.ndisks := by
    have hsplit : g * cfg.groupwidth =
        g % cfg.ngroups * cfg.groupwidth + g / cfg.ngroups * sliceRows cfg * cfg.ndisks := by
      rw [Nat.mul_assoc, hslices]
      calc g * cfg.groupwidth
          = (g % cfg.ngroups + cfg.ngroups * (g / cfg.ngroups)) * cfg.groupwidth := by
            rw [Nat.mod_add_div]
        _ = _ := by ring
    rw [hsplit, Nat.add_mul_div_right _ _ hdisks, Nat.add_comm]
  have hrowle : g * cfg.groupwidth / cfg.ndisks ≤ g * cfg.groupwidth := Nat.div_le_self _ _
  have hrowbytes : g * cfg.groupwidth / cfg.ndisks * rowHeight ≤ g * cfg.groupwidth * rowHeight :=
    Nat.mul_le_mul_right _ hrowle
  have hrow₁ := Nat.le.intro hrow
  have hperm : mul64 (g / cfg.ngroups) (sliceRows cfg) = g / cfg.ngroups * sliceRows cfg :=
    mul64_of_lt (by omega)
  have hrest : mul64 (g % cfg.ngroups) cfg.groupwidth = g % cfg.ngroups * cfg.groupwidth :=
    hmod _ (Nat.mod_le _ _)
  have hadd : add64 (g / cfg.ngroups * sliceRows cfg)
      (g % cfg.ngroups * cfg.groupwidth / cfg.ndisks) = g * cfg.groupwidth / cfg.ndisks := by
    rw [add64_of_lt (by omega), hrow]
  have hhr : height ashift * (g * cfg.groupwidth / cfg.ndisks) * 2 ^ ashift =
      g * cfg.groupwidth / cfg.ndisks * rowHeight := by
    rw [← height_mul hashift]
    ring
  have hj : r % height ashift * 2 ^ ashift < rowHeight := by
    rw [← height_mul hashift]
    exact Nat.mul_lt_mul_of_pos_right (Nat.mod_lt _ hheight) hpos
  have hgroupsz : rowHeight ≤ cfg.groupsz := by
    rw [h.groupsz_eq]
    exact Nat.le_mul_of_pos_left _ (by omega)
  have hend : (height ashift * (g * cfg.groupwidth / cfg.ndisks) + r % height ashift) * 2 ^ ashift <
      word := by
    rw [Nat.add_mul, hhr]
    omega
  have hend' : height ashift * (g * cfg.groupwidth / cfg.ndisks) + r % height ashift < word :=
    Nat.lt_of_le_of_lt (Nat.le_mul_of_pos_right _ hpos) hend
  have hrows : mul64 (height ashift) (g * cfg.groupwidth / cfg.ndisks) =
      height ashift * (g * cfg.groupwidth / cfg.ndisks) := mul64_of_lt (by omega)
  unfold Config.logicalToPhysical place
  simp only [hrh, hgroup, hsector, hmul, hslice, hheights, hboff, Nat.add_zero]
  rw [← sliceRows, hperm, hrest, hadd, hrows, add64_of_lt hend', shl64_of_lt hlt64 hend,
    Nat.add_mul, hhr]

theorem Run.shared (h : WellFormed cfg) (hrun : Run cfg ashift r n) :
    Shared n cfg.groupwidth cfg.nparity (shares n cfg.groupwidth cfg.nparity) := by
  have hwidth := h.groupwidth_eq
  have hndata : cfg.groupwidth - cfg.nparity = cfg.ndata := by omega
  have hpos := h.ndata_pos
  have hgroupsz : cfg.groupsz < word := by
    have := hrun.fits
    have := Nat.le_mul_of_pos_left cfg.groupsz (show 0 < r / height ashift + 1 from Nat.succ_pos _)
    omega
  have hrows : divCeil n cfg.ndata ≤ rowHeight := by
    have := hrun.inside
    have := Nat.div_le_self rowHeight (2 ^ ashift)
    unfold height at *
    omega
  have hle := le_divCeil_mul (a := n) hpos
  have htot : n + cfg.nparity * divCeil n cfg.ndata ≤ cfg.groupsz := by
    calc n + cfg.nparity * divCeil n cfg.ndata
        ≤ divCeil n cfg.ndata * cfg.ndata + cfg.nparity * divCeil n cfg.ndata :=
          Nat.add_le_add_right hle _
      _ = cfg.groupwidth * divCeil n cfg.ndata := by rw [hwidth]; ring
      _ ≤ cfg.groupsz := by
          rw [h.groupsz_eq]
          exact Nat.mul_le_mul_left _ hrows
  refine shares_spec (by omega) ?_ (by rw [hndata]; omega)
  have htwo : cfg.groupwidth * 2 ≤ cfg.groupsz := by
    rw [h.groupsz_eq]
    exact Nat.mul_le_mul_left _ (by decide)
  omega

theorem WellFormed.sub64_nparity (h : WellFormed cfg) (hlt : cfg.groupwidth < word) :
    sub64 cfg.groupwidth cfg.nparity = cfg.ndata := by
  have hwidth := h.groupwidth_eq
  rw [sub64_of_le hlt (by omega), hwidth, Nat.add_sub_cancel]

theorem Run.groupwidth_lt (h : WellFormed cfg) (hrun : Run cfg ashift r n) :
    cfg.groupwidth * rowHeight < word := by
  have hle := Nat.le_mul_of_pos_left cfg.groupsz (show 0 < r / height ashift + 1 from Nat.succ_pos _)
  have hfits := hrun.fits
  rw [← h.groupsz_eq]
  omega

/-- A column has at most one sector in each row of the run. -/
theorem Run.count_le (h : WellFormed cfg) (hrun : Run cfg ashift r n) (i : Nat) :
    (shares n cfg.groupwidth cfg.nparity).count i ≤ divCeil n cfg.ndata := by
  have hlt := hrun.groupwidth_lt h
  have hle := Nat.le_mul_of_pos_right cfg.groupwidth (Nat.two_pow_pos rowShift)
  have hsub := h.sub64_nparity (Nat.lt_of_le_of_lt hle hlt)
  have hdiv := Nat.div_add_mod n cfg.ndata
  have hcomm : n / cfg.ndata * cfg.ndata = cfg.ndata * (n / cfg.ndata) := Nat.mul_comm _ _
  unfold Shares.count
  rw [shares_q, shares_bc, hsub, divCeil_eq]
  split
  · exact Nat.zero_le _
  · by_cases hr : n - n / cfg.ndata * cfg.ndata = 0
    · rw [if_pos hr, if_neg (Nat.not_lt_zero i)]
      exact Nat.le_add_right _ _
    · rw [if_neg hr, if_neg (show ¬ n % cfg.ndata = 0 by omega)]
      split
      · exact Nat.le_refl _
      · exact Nat.le_succ _

/-- The columns of a row are the runs of addresses. -/
theorem row_cols (h : WellFormed cfg) (hrun : Run cfg ashift r n) :
    (cfg.row (rowOffset cfg ashift r) (n * 2 ^ ashift) ashift).cols =
      (List.range cfg.groupwidth).map (fun i =>
        { devidx := (address cfg ashift r i).1
          offset := (address cfg ashift r i).2
          size := (shares n cfg.groupwidth cfg.nparity).count i * 2 ^ ashift }) := by
  have hashift := hrun.ashift_le
  have hlt64 : ashift < 64 := by unfold rowShift at hashift; omega
  have hlt := hrun.groupwidth_lt h
  have hwidth := h.groupwidth_ge
  have hle := h.groupwidth_le
  have hdisks := h.ndisks_pos
  have hgroupwidth : cfg.groupwidth < word :=
    Nat.lt_of_le_of_lt (Nat.le_mul_of_pos_right _ (Nat.two_pow_pos rowShift)) hlt
  have hsub := h.sub64_nparity hgroupwidth
  have hspec := hrun.shared h
  have hsectors : shr64 (n * 2 ^ ashift) ashift = n := by
    rw [shr64_of_lt hlt64, Nat.mul_div_cancel _ (Nat.two_pow_pos ashift)]
  unfold Config.row
  rw [logicalToPhysical_eq h hashift hrun.fits]
  dsimp only
  refine List.map_congr_left (fun i hi => ?_)
  have hi := List.mem_range.mp hi
  obtain ⟨g, hg⟩ : ∃ g, r / height ashift = g := ⟨_, rfl⟩
  have hfits := hrun.fits
  rw [hg] at hfits ⊢
  obtain ⟨gs, hgs⟩ : ∃ gs, place cfg g 0 % cfg.ndisks = gs := ⟨_, rfl⟩
  have hgslt : gs < cfg.ndisks := by rw [← hgs]; exact Nat.mod_lt _ hdisks
  have hchildren : cfg.ndisks ≤ 255 := h.ndisks_le
  have hadd : ∀ k ≤ cfg.groupwidth, add64 gs k = gs + k := fun k hk =>
    add64_of_lt (by unfold word; omega)
  have hplace : place cfg g i = place cfg g 0 + i := rfl
  have hcol : (gs + i) % cfg.ndisks = place cfg g i % cfg.ndisks := by
    rw [← hgs, Nat.mod_add_mod, hplace]
  have hdiv := Nat.div_add_mod (place cfg g 0) cfg.ndisks
  rw [hgs] at hdiv
  obtain ⟨row, hrow⟩ : ∃ row, place cfg g 0 / cfg.ndisks = row := ⟨_, rfl⟩
  rw [hrow] at hdiv
  have hnext : place cfg g i / cfg.ndisks = if cfg.ndisks ≤ gs + i then row + 1 else row := by
    by_cases hwrap : cfg.ndisks ≤ gs + i
    · have heq : place cfg g i = gs + i - cfg.ndisks + cfg.ndisks * (row + 1) := by
        rw [hplace, Nat.mul_add, Nat.mul_one]
        omega
      rw [if_pos hwrap, heq, Nat.add_mul_div_left _ _ hdisks, Nat.div_eq_of_lt (by omega),
        Nat.zero_add]
    · have heq : place cfg g i = gs + i + cfg.ndisks * row := by
        rw [hplace]
        omega
      rw [if_neg hwrap, heq, Nat.add_mul_div_left _ _ hdisks, Nat.div_eq_of_lt (by omega),
        Nat.zero_add]
  have hwrap : (if add64 gs cfg.groupwidth > cfg.ndisks then cfg.ndisks - gs
      else cfg.groupwidth) ≤ i ↔ cfg.ndisks ≤ gs + i := by
    rw [hadd _ (Nat.le_refl _)]
    by_cases hgt : gs + cfg.groupwidth > cfg.ndisks
    · rw [if_pos hgt]
      omega
    · rw [if_neg hgt]
      omega
  have hoffset : cfg.ndisks ≤ gs + i →
      add64 (row * rowHeight + r % height ashift * 2 ^ ashift) rowHeight =
        (row + 1) * rowHeight + r % height ashift * 2 ^ ashift := by
    intro hge
    have hj : r % height ashift * 2 ^ ashift < rowHeight := by
      rw [← height_mul hashift]
      exact Nat.mul_lt_mul_of_pos_right (Nat.mod_lt _ (height_pos hashift))
        (Nat.two_pow_pos ashift)
    -- A group spans two disks or more, so the next grid row ends below the end of the group.
    have hhalf : 2 * (row + 1) ≤ (g + 1) * cfg.groupwidth := by
      have htwo : 2 * (row + 1) ≤ cfg.ndisks * (row + 1) := Nat.mul_le_mul_right _ (by omega)
      have hend : cfg.ndisks * (row + 1) ≤ place cfg g i := by
        rw [hplace, Nat.mul_add, Nat.mul_one]
        omega
      have hlast : place cfg g i ≤ (g + 1) * cfg.groupwidth := by
        rw [place, Nat.add_mul]
        omega
      omega
    have hbytes : 2 * (row + 1) * rowHeight ≤ (g + 1) * cfg.groupsz := by
      rw [h.groupsz_eq, ← Nat.mul_assoc]
      exact Nat.mul_le_mul_right _ hhalf
    have hexp : 2 * (row + 1) * rowHeight =
        row * rowHeight + rowHeight + (row * rowHeight + rowHeight) := by ring
    rw [add64_of_lt (by omega), Nat.add_mul, Nat.one_mul]
    omega
  have hsize : (if n / cfg.ndata = 0 ∧ i ≥ (if n - n / cfg.ndata * cfg.ndata = 0 then 0
        else add64 (n - n / cfg.ndata * cfg.ndata) cfg.nparity) then 0
      else if i < (if n - n / cfg.ndata * cfg.ndata = 0 then 0
        else add64 (n - n / cfg.ndata * cfg.ndata) cfg.nparity)
        then shl64 (add64 (n / cfg.ndata) 1) ashift
      else shl64 (n / cfg.ndata) ashift) =
      (shares n cfg.groupwidth cfg.nparity).count i * 2 ^ ashift := by
    have hcount := hrun.count_le h i
    have hq := shares_q n cfg.groupwidth cfg.nparity
    have hbc := shares_bc n cfg.groupwidth cfg.nparity
    rw [hsub] at hq hbc
    rw [← hbc, ← hq, hspec.count_eq hi]
    rw [hspec.count_eq hi] at hcount
    have hheight : divCeil n cfg.ndata * 2 ^ ashift ≤ rowHeight := by
      rw [← height_mul hashift]
      exact Nat.mul_le_mul_right _ (by have := hrun.inside; omega)
    have hbytes := Nat.mul_le_mul_right (2 ^ ashift) hcount
    have hrh : rowHeight < word := by decide
    by_cases hlt : i < (shares n cfg.groupwidth cfg.nparity).bc
    · rw [if_pos hlt] at hbytes
      have hone := Nat.le_mul_of_pos_right ((shares n cfg.groupwidth cfg.nparity).q + 1)
        (Nat.two_pow_pos ashift)
      rw [if_neg (fun hn => by omega), if_pos hlt, if_pos hlt, add64_of_lt (by omega),
        shl64_of_lt hlt64 (by omega)]
    · rw [if_neg hlt] at hbytes
      by_cases hq0 : (shares n cfg.groupwidth cfg.nparity).q = 0
      · rw [if_pos ⟨hq0, by omega⟩, if_neg hlt, hq0, Nat.zero_mul]
      · rw [if_neg (fun hn => hq0 hn.1), if_neg hlt, if_neg hlt, shl64_of_lt hlt64 (by omega)]
  have haddress : address cfg ashift r i =
      (cfg.permute (g / cfg.ngroups) (place cfg g i % cfg.ndisks),
        place cfg g i / cfg.ndisks * rowHeight + r % height ashift * 2 ^ ashift) := by
    rw [address, hg]
  rw [haddress, hsectors, hsize, hgs, hadd _ hi.le, hcol, hnext, Column.mk.injEq]
  refine ⟨rfl, ?_, rfl⟩
  by_cases hge : cfg.ndisks ≤ gs + i
  · rw [if_pos (hwrap.mpr hge), if_pos hge, hrow, hoffset hge]
  · rw [if_neg (fun hn => hge (hwrap.mp hn)), if_neg hge, hrow]

/-- A byte of a column lies in the sector of its column in one of the rows of the run. -/
theorem address_of_holds (h : WellFormed cfg) (hrun : Run cfg ashift r n) {c : Column}
    (hc : c ∈ (cfg.row (rowOffset cfg ashift r) (n * 2 ^ ashift) ashift).cols) {child byte : Nat}
    (hbyte : c.Holds child byte) :
    ∃ t < divCeil n cfg.ndata, ∃ i < cfg.groupwidth,
      address cfg ashift (r + t) i = (child, byte / 2 ^ ashift * 2 ^ ashift) := by
  rw [row_cols h hrun] at hc
  obtain ⟨i, hi, rfl⟩ := List.mem_map.mp hc
  obtain ⟨hchild, hlo, hhi⟩ := hbyte
  dsimp only at hchild hlo hhi
  have hashift := hrun.ashift_le
  have hpos := Nat.two_pow_pos ashift
  have hcount := hrun.count_le h i
  have hinside := hrun.inside
  -- In sectors the column starts at row `s` of its child.
  obtain ⟨s, hs⟩ : ∃ s, (address cfg ashift r i).2 = (s + r % height ashift) * 2 ^ ashift := by
    refine ⟨place cfg (r / height ashift) i / cfg.ndisks * height ashift, ?_⟩
    rw [Nat.add_mul, Nat.mul_assoc, height_mul hashift]
    rfl
  rw [hs] at hlo hhi
  have hlo' : s + r % height ashift ≤ byte / 2 ^ ashift := (Nat.le_div_iff_mul_le hpos).mpr hlo
  have hhi' : byte / 2 ^ ashift < s + r % height ashift +
      (shares n cfg.groupwidth cfg.nparity).count i := by
    rw [Nat.div_lt_iff_lt_mul hpos, Nat.add_mul]
    exact hhi
  obtain ⟨t, ht⟩ : ∃ t, byte / 2 ^ ashift = s + r % height ashift + t := Nat.exists_eq_add_of_le hlo'
  refine ⟨t, by omega, i, List.mem_range.mp hi, ?_⟩
  have hlt : r % height ashift + t < height ashift := by omega
  have hsum : r + t = height ashift * (r / height ashift) + (r % height ashift + t) := by
    rw [← Nat.add_assoc, Nat.div_add_mod]
  have hdiv : (r + t) / height ashift = r / height ashift := by
    rw [hsum, Nat.mul_add_div (by omega), Nat.div_eq_of_lt hlt, Nat.add_zero]
  have hmod : (r + t) % height ashift = r % height ashift + t := by
    rw [hsum, Nat.mul_add_mod, Nat.mod_eq_of_lt hlt]
  have hnext : address cfg ashift (r + t) i =
      ((address cfg ashift r i).1, (address cfg ashift r i).2 + t * 2 ^ ashift) := by
    simp only [address, hdiv, hmod, Nat.add_mul, Nat.add_assoc]
  rw [hnext, hchild, hs, ht, Nat.add_mul (s + _) t]

/-- The data columns of a run hold its sectors. -/
theorem row_data_size (h : WellFormed cfg) (hrun : Run cfg ashift r n) :
    ((cfg.row (rowOffset cfg ashift r) (n * 2 ^ ashift) ashift).data.map Column.size).sum =
      n * 2 ^ ashift := by
  have hspec := hrun.shared h
  have hwidth := h.groupwidth_eq
  have hbc := hspec.bc_lt
  have hacols : (cfg.row (rowOffset cfg ashift r) (n * 2 ^ ashift) ashift).acols =
      cfg.groupwidth := rfl
  have hnparity : (cfg.row (rowOffset cfg ashift r) (n * 2 ^ ashift) ashift).nparity =
      cfg.nparity := rfl
  have hcols : (cfg.row (rowOffset cfg ashift r) (n * 2 ^ ashift) ashift).cols.map Column.size =
      (List.range cfg.groupwidth).map (fun i =>
        (shares n cfg.groupwidth cfg.nparity).count i * 2 ^ ashift) := by
    rw [row_cols h hrun, List.map_map]
    rfl
  have hdata : (cfg.row (rowOffset cfg ashift r) (n * 2 ^ ashift) ashift).data.map Column.size =
      ((List.range' cfg.nparity cfg.ndata).map
        (shares n cfg.groupwidth cfg.nparity).count).map (· * 2 ^ ashift) := by
    rw [Map.data, hacols, hnparity, List.map_drop, List.map_take, hcols, ← List.map_take,
      List.take_range, Nat.min_self, ← List.map_drop, List.range_eq_range', List.drop_range',
      List.map_map, Nat.mul_one, Nat.zero_add, hwidth, Nat.add_sub_cancel]
    rfl
  have hsum : ((List.range' cfg.nparity cfg.ndata).map
      (shares n cfg.groupwidth cfg.nparity).count).sum = n := by
    have hsectors := hspec.sectors
    have hparity := hspec.parity
    have hcount : (List.range' cfg.nparity cfg.ndata).map
        (shares n cfg.groupwidth cfg.nparity).count =
        (List.range' cfg.nparity cfg.ndata).map (fun c =>
          if c < (shares n cfg.groupwidth cfg.nparity).bc
          then (shares n cfg.groupwidth cfg.nparity).q + 1
          else (shares n cfg.groupwidth cfg.nparity).q) := by
      refine List.map_congr_left (fun c hc => hspec.count_eq ?_)
      have := List.mem_range'_1.mp hc
      omega
    have hndata : cfg.groupwidth - cfg.nparity = cfg.ndata := by omega
    rw [hndata] at hsectors
    rw [hcount, sum_share]
    omega
  rw [hdata, List.sum_map_mul_right, List.map_id', hsum]

end Row

/-! ## The rows of a block -/

/-- A block as OpenZFS allocates it: on a row of its group, in whole sectors, no longer than
a group, and in groups that end below 2^64 bytes. -/
structure Block (cfg : Config) (ashift offset psize : Nat) : Prop where
  ashift_le : ashift ≤ rowShift
  onRow : cfg.groupwidth * 2 ^ ashift ∣ offset
  sectors : 2 ^ ashift ∣ psize
  pos : 0 < psize
  small : psize ≤ cfg.ndata * rowHeight
  fits : ((offset + cfg.asize psize ashift - 1) / cfg.groupsz + 1) * cfg.groupsz < word

section Block

variable {cfg : Config} {ashift r n : Nat}

/-- A run that starts on a row, cut into sectors, is allocated whole rows. -/
theorem asize_eq (h : WellFormed cfg) (hashift : ashift ≤ rowShift) (hn : 0 < n)
    (hsmall : n * 2 ^ ashift ≤ cfg.ndata * rowHeight) (hgroupsz : cfg.groupsz < word) :
    cfg.asize (n * 2 ^ ashift) ashift = rowOffset cfg ashift (divCeil n cfg.ndata) := by
  have hlt64 : ashift < 64 := by unfold rowShift at hashift; omega
  have hpos := Nat.two_pow_pos ashift
  have hndata := h.ndata_pos
  have hwidth := h.groupwidth_eq
  have hD := divCeil_pos hn hndata
  have hlo := divCeil_mul_lt (a := n) hndata
  have hhi := le_divCeil_mul (a := n) hndata
  have hrows : divCeil n cfg.ndata ≤ height ashift := by
    refine divCeil_le hndata (Nat.le_of_mul_le_mul_right ?_ hpos)
    rw [Nat.mul_right_comm, height_mul hashift, Nat.mul_comm rowHeight]
    exact hsmall
  have hwidthle : cfg.ndata * rowHeight ≤ cfg.groupsz := by
    rw [h.groupsz_eq]
    exact Nat.mul_le_mul_right _ (by omega)
  have hunit : shl64 cfg.ndata ashift = cfg.ndata * 2 ^ ashift := by
    refine shl64_of_lt hlt64 ?_
    have hle : cfg.ndata * 2 ^ ashift ≤ cfg.ndata * rowHeight :=
      Nat.mul_le_mul_left _ (Nat.pow_le_pow_right (by decide) hashift)
    omega
  have hone : 1 ≤ n * 2 ^ ashift := Nat.mul_pos hn hpos
  have hsub : sub64 (n * 2 ^ ashift) 1 = n * 2 ^ ashift - 1 := sub64_of_le (by omega) hone
  have hdiv : (n * 2 ^ ashift - 1) / (cfg.ndata * 2 ^ ashift) = divCeil n cfg.ndata - 1 := by
    obtain ⟨d, hd⟩ : ∃ d, divCeil n cfg.ndata = d + 1 := ⟨divCeil n cfg.ndata - 1, by omega⟩
    rw [hd, Nat.add_sub_cancel]
    rw [hd, Nat.add_mul, Nat.one_mul] at hlo
    rw [hd] at hhi
    refine Nat.div_eq_of_lt_le ?_ ?_
    · have hle : (d * cfg.ndata + 1) * 2 ^ ashift ≤ n * 2 ^ ashift :=
        Nat.mul_le_mul_right _ (by omega)
      rw [Nat.add_mul, Nat.one_mul] at hle
      rw [← Nat.mul_assoc]
      omega
    · have hle : n * 2 ^ ashift ≤ (d + 1) * cfg.ndata * 2 ^ ashift := Nat.mul_le_mul_right _ hhi
      rw [← Nat.mul_assoc]
      omega
  have hfit : divCeil n cfg.ndata * cfg.groupwidth * 2 ^ ashift ≤ cfg.groupsz := by
    rw [h.groupsz_height hashift, Nat.mul_assoc]
    exact Nat.mul_le_mul_right _ hrows
  have hfit' : divCeil n cfg.ndata * cfg.groupwidth ≤ cfg.groupsz :=
    Nat.le_trans (Nat.le_mul_of_pos_right _ hpos) hfit
  have hle : divCeil n cfg.ndata ≤ divCeil n cfg.ndata * cfg.groupwidth :=
    Nat.le_mul_of_pos_right _ (by omega)
  unfold Config.asize
  rw [hunit, hsub, hdiv, add64_of_lt (by omega), Nat.sub_add_cancel hD]
  dsimp only
  rw [mul64_of_lt (by omega)]
  exact shl64_of_lt hlt64 (by omega)

/-- What the side conditions on a block say in rows. -/
structure Rows (cfg : Config) (ashift r n : Nat) : Prop where
  ashift_le : ashift ≤ rowShift
  pos : 0 < n
  small : divCeil n cfg.ndata ≤ height ashift
  bytes : n * 2 ^ ashift ≤ cfg.ndata * rowHeight
  fits : ((r + divCeil n cfg.ndata - 1) / height ashift + 1) * cfg.groupsz < word

theorem Rows.groupsz_lt (hrows : Rows cfg ashift r n) : cfg.groupsz < word := by
  have hle := Nat.le_mul_of_pos_left cfg.groupsz
    (show 0 < (r + divCeil n cfg.ndata - 1) / height ashift + 1 from Nat.succ_pos _)
  have hfits := hrows.fits
  omega

theorem Block.rows (h : WellFormed cfg)
    (hblock : Block cfg ashift (rowOffset cfg ashift r) (n * 2 ^ ashift)) : Rows cfg ashift r n := by
  have hashift := hblock.ashift_le
  have hpos := Nat.two_pow_pos ashift
  have hndata := h.ndata_pos
  have hwidth := h.groupwidth_ge
  have hn : 0 < n := Nat.pos_of_mul_pos_right hblock.pos
  have hgroupsz : cfg.groupsz < word := by
    have hle := Nat.le_mul_of_pos_left cfg.groupsz
      (show 0 < (rowOffset cfg ashift r + cfg.asize (n * 2 ^ ashift) ashift - 1) / cfg.groupsz + 1
        from Nat.succ_pos _)
    have hfits := hblock.fits
    omega
  have hD := divCeil_pos hn hndata
  have hfits := hblock.fits
  have hsum : rowOffset cfg ashift r + rowOffset cfg ashift (divCeil n cfg.ndata) =
      (r + divCeil n cfg.ndata) * (cfg.groupwidth * 2 ^ ashift) := by
    unfold rowOffset
    ring
  have hunit : 0 < cfg.groupwidth * 2 ^ ashift := Nat.mul_pos (by omega) hpos
  have hlast : ((r + divCeil n cfg.ndata) * (cfg.groupwidth * 2 ^ ashift) - 1) / cfg.groupsz =
      (r + divCeil n cfg.ndata - 1) / height ashift := by
    obtain ⟨e, he⟩ : ∃ e, r + divCeil n cfg.ndata = e + 1 := ⟨r + divCeil n cfg.ndata - 1, by omega⟩
    have hdiv : ((e + 1) * (cfg.groupwidth * 2 ^ ashift) - 1) / (cfg.groupwidth * 2 ^ ashift) =
        e := by
      refine Nat.div_eq_of_lt_le ?_ ?_
      · rw [Nat.add_mul, Nat.one_mul]
        omega
      · have := Nat.mul_pos (show 0 < e + 1 from Nat.succ_pos e) hunit
        omega
    rw [h.groupsz_height hashift, Nat.mul_comm (height ashift), ← Nat.div_div_eq_div_mul, he, hdiv,
      Nat.add_sub_cancel]
  rw [asize_eq h hashift hn hblock.small hgroupsz, hsum, hlast] at hfits
  refine { ashift_le := hashift, pos := hn, small := ?_, bytes := hblock.small, fits := hfits }
  refine divCeil_le hndata (Nat.le_of_mul_le_mul_right ?_ hpos)
  rw [Nat.mul_right_comm, height_mul hashift, Nat.mul_comm rowHeight]
  exact hblock.small

/-- The rows of a group from logical row `r` on. -/
def rowsLeft (ashift r : Nat) : Nat := height ashift - r % height ashift

/-- The runs that `Config.map` lays out: one within the group, or one up to its end and one
on from there. -/
def pieces (cfg : Config) (ashift r n : Nat) : List (Nat × Nat) :=
  if divCeil n cfg.ndata ≤ rowsLeft ashift r then [(r, n)]
  else [(r, rowsLeft ashift r * cfg.ndata),
    (r + rowsLeft ashift r, n - rowsLeft ashift r * cfg.ndata)]

/-- The second run starts on the next group. -/
theorem rowsLeft_spec (hashift : ashift ≤ rowShift) (r : Nat) :
    0 < rowsLeft ashift r ∧ r + rowsLeft ashift r = (r / height ashift + 1) * height ashift := by
  have hmod := Nat.mod_lt r (height_pos hashift)
  have hdiv := Nat.div_add_mod r (height ashift)
  unfold rowsLeft
  refine ⟨by omega, ?_⟩
  rw [Nat.add_mul, Nat.one_mul, Nat.mul_comm (r / height ashift)]
  omega

theorem crosses (hndata : 0 < cfg.ndata)
    (hcross : ¬ divCeil n cfg.ndata ≤ rowsLeft ashift r) :
    rowsLeft ashift r * cfg.ndata < n ∧
      divCeil (rowsLeft ashift r * cfg.ndata) cfg.ndata = rowsLeft ashift r ∧
      divCeil (n - rowsLeft ashift r * cfg.ndata) cfg.ndata =
        divCeil n cfg.ndata - rowsLeft ashift r := by
  have hlt : rowsLeft ashift r * cfg.ndata < n := by
    by_contra hge
    exact hcross (divCeil_le hndata (by omega))
  refine ⟨hlt, ?_, divCeil_mul_sub hndata hlt.le⟩
  rw [divCeil_eq, Nat.mul_mod_left, if_pos rfl, Nat.mul_div_cancel _ hndata, Nat.add_zero]

/-- The runs of a block are runs, in order and without overlap, and hold its sectors. -/
theorem pieces_spec (h : WellFormed cfg) (hrows : Rows cfg ashift r n) :
    (∀ p ∈ pieces cfg ashift r n, Run cfg ashift p.1 p.2 ∧ r ≤ p.1 ∧
      p.1 + divCeil p.2 cfg.ndata ≤ r + divCeil n cfg.ndata) ∧
    (pieces cfg ashift r n).Pairwise (fun p q => p.1 + divCeil p.2 cfg.ndata ≤ q.1) ∧
    ((pieces cfg ashift r n).map Prod.snd).sum = n := by
  have hashift := hrows.ashift_le
  have hheight := height_pos hashift
  have hD := divCeil_pos hrows.pos h.ndata_pos
  obtain ⟨hleft, hnext⟩ := rowsLeft_spec hashift r
  have hmono : ∀ {a b : Nat}, a ≤ b → (a + 1) * cfg.groupsz ≤ (b + 1) * cfg.groupsz :=
    fun hab => Nat.mul_le_mul_right _ (Nat.succ_le_succ hab)
  have hfirst : (r / height ashift + 1) * cfg.groupsz < word :=
    Nat.lt_of_le_of_lt (hmono (Nat.div_le_div_right (by omega :
      r ≤ r + divCeil n cfg.ndata - 1))) hrows.fits
  have hmod := Nat.mod_lt r hheight
  unfold pieces
  by_cases hcross : divCeil n cfg.ndata ≤ rowsLeft ashift r
  · rw [if_pos hcross]
    refine ⟨fun p hp => ?_, List.pairwise_singleton _ _, by simp⟩
    obtain rfl := List.mem_singleton.mp hp
    unfold rowsLeft at hcross
    have hinside : r % height ashift + divCeil n cfg.ndata ≤ height ashift := by omega
    exact ⟨{ ashift_le := hashift, inside := hinside, fits := hfirst }, Nat.le_refl _,
      Nat.le_refl _⟩
  · rw [if_neg hcross]
    obtain ⟨hlt, hceil₁, hceil₂⟩ := crosses h.ndata_pos hcross
    have hsmall := hrows.small
    refine ⟨fun p hp => ?_, ?_, ?_⟩
    · rcases List.mem_cons.mp hp with rfl | hp
      · refine ⟨{ ashift_le := hashift, inside := ?_, fits := hfirst }, Nat.le_refl _, ?_⟩
        · show r % height ashift + divCeil (rowsLeft ashift r * cfg.ndata) cfg.ndata ≤ _
          rw [hceil₁]
          unfold rowsLeft
          omega
        · show r + divCeil (rowsLeft ashift r * cfg.ndata) cfg.ndata ≤ _
          rw [hceil₁]
          omega
      · obtain rfl := List.mem_singleton.mp hp
        have hgroup : (r + rowsLeft ashift r) / height ashift = r / height ashift + 1 := by
          rw [hnext, Nat.mul_div_cancel _ hheight]
        have hstart : (r + rowsLeft ashift r) % height ashift = 0 := by
          rw [hnext, Nat.mul_mod_left]
        refine ⟨{ ashift_le := hashift, inside := ?_, fits := ?_ }, Nat.le_add_right _ _, ?_⟩
        · show (r + rowsLeft ashift r) % height ashift +
            divCeil (n - rowsLeft ashift r * cfg.ndata) cfg.ndata ≤ _
          rw [hceil₂, hstart]
          omega
        · refine Nat.lt_of_le_of_lt (hmono ?_) hrows.fits
          exact Nat.div_le_div_right (show r + rowsLeft ashift r ≤ _ by omega)
        · show r + rowsLeft ashift r + divCeil (n - rowsLeft ashift r * cfg.ndata) cfg.ndata ≤ _
          rw [hceil₂]
          omega
    · refine List.pairwise_pair.mpr ?_
      rw [hceil₁]
    · rw [List.map_cons, List.map_singleton, List.sum_cons, List.sum_singleton]
      omega

/-- `Config.map` lays out the runs of the block. -/
theorem map_eq (h : WellFormed cfg) (hrows : Rows cfg ashift r n) :
    cfg.map (rowOffset cfg ashift r) (n * 2 ^ ashift) ashift =
      (pieces cfg ashift r n).map (fun p =>
        cfg.row (rowOffset cfg ashift p.1) (p.2 * 2 ^ ashift) ashift) := by
  have hashift := hrows.ashift_le
  have hpos := Nat.two_pow_pos ashift
  have hheight := height_pos hashift
  have hwidth := h.groupwidth_ge
  have hgroupsz := hrows.groupsz_lt
  have hunit : 0 < cfg.groupwidth * 2 ^ ashift := Nat.mul_pos (by omega) hpos
  have hD := divCeil_pos hrows.pos h.ndata_pos
  obtain ⟨hleft, hnext⟩ := rowsLeft_spec hashift r
  -- Offsets of rows are monotone, and the block's last group ends inside 64 bits.
  have hbytes : ∀ a, rowOffset cfg ashift a = a * (cfg.groupwidth * 2 ^ ashift) :=
    fun a => Nat.mul_assoc _ _ _
  have hlast : r + divCeil n cfg.ndata ≤
      ((r + divCeil n cfg.ndata - 1) / height ashift + 1) * height ashift := by
    have hdiv := Nat.div_add_mod (r + divCeil n cfg.ndata - 1) (height ashift)
    have hmod := Nat.mod_lt (r + divCeil n cfg.ndata - 1) hheight
    rw [Nat.add_mul, Nat.one_mul, Nat.mul_comm _ (height ashift)]
    omega
  have hgroup : ∀ a, a * cfg.groupsz = rowOffset cfg ashift (a * height ashift) := by
    intro a
    rw [hbytes, h.groupsz_height hashift, Nat.mul_assoc]
  have hend : rowOffset cfg ashift (r + divCeil n cfg.ndata) < word := by
    have hfits := hrows.fits
    rw [hgroup, hbytes] at hfits
    rw [hbytes]
    exact Nat.lt_of_le_of_lt (Nat.mul_le_mul_right _ hlast) hfits
  have hasize := asize_eq h hashift hrows.pos hrows.bytes hgroupsz
  have hadd : ∀ a b, rowOffset cfg ashift a + rowOffset cfg ashift b =
      rowOffset cfg ashift (a + b) := by
    intro a b
    rw [hbytes, hbytes, hbytes, Nat.add_mul]
  have hgroupend : (r / height ashift + 1) * cfg.groupsz < word := by
    refine Nat.lt_of_le_of_lt (Nat.mul_le_mul_right _ (Nat.succ_le_succ ?_)) hrows.fits
    exact Nat.div_le_div_right (by omega)
  have hgroupend' := hgroupend
  rw [hgroup] at hgroupend'
  have hgle : r / height ashift + 1 < word :=
    Nat.lt_of_le_of_lt (Nat.le_mul_of_pos_right _ (by
      rw [h.groupsz_height hashift]
      exact Nat.mul_pos hheight hunit)) hgroupend
  have hnextgroup : mul64 (add64 (r / height ashift) 1) cfg.groupsz =
      rowOffset cfg ashift (r + rowsLeft ashift r) := by
    rw [add64_of_lt hgle, mul64_of_lt hgroupend, hgroup, hnext]
  unfold Config.map pieces
  dsimp only
  rw [h.group_of_row hashift, hnextgroup, hasize, add64_of_lt (by rw [hadd]; exact hend), hadd]
  by_cases hcross : divCeil n cfg.ndata ≤ rowsLeft ashift r
  · have hle : ¬ rowOffset cfg ashift (r + divCeil n cfg.ndata) >
        rowOffset cfg ashift (r + rowsLeft ashift r) := by
      rw [hbytes, hbytes]
      exact not_lt.mpr (Nat.mul_le_mul_right _ (by omega))
    rw [if_neg hle, if_neg (Nat.lt_irrefl _), if_pos hcross]
    rfl
  · obtain ⟨hlt, hceil₁, -⟩ := crosses h.ndata_pos hcross
    have hgt : rowOffset cfg ashift (r + divCeil n cfg.ndata) >
        rowOffset cfg ashift (r + rowsLeft ashift r) := by
      rw [hbytes, hbytes]
      exact Nat.mul_lt_mul_of_pos_right (by omega) hunit
    have hltword : rowOffset cfg ashift (r + rowsLeft ashift r) < word := by omega
    have hbelow := hadd r (rowsLeft ashift r)
    have hpsize : cfg.asizeToPsize (sub64 (rowOffset cfg ashift (r + rowsLeft ashift r))
        (rowOffset cfg ashift r)) = rowsLeft ashift r * cfg.ndata * 2 ^ ashift := by
      have hsub : rowOffset cfg ashift (r + rowsLeft ashift r) - rowOffset cfg ashift r =
          rowsLeft ashift r * 2 ^ ashift * cfg.groupwidth := by
        rw [← hbelow, Nat.add_sub_cancel_left, rowOffset]
        ring
      have hfit : rowsLeft ashift r * 2 ^ ashift * cfg.ndata < word := by
        have hle : rowsLeft ashift r * cfg.ndata * 2 ^ ashift ≤ n * 2 ^ ashift :=
          Nat.mul_le_mul_right _ hlt.le
        have hsmall := hrows.bytes
        have hgle : cfg.ndata * rowHeight ≤ cfg.groupsz := by
          rw [h.groupsz_eq]
          exact Nat.mul_le_mul_right _ (by have := h.groupwidth_eq; omega)
        rw [Nat.mul_right_comm]
        omega
      unfold Config.asizeToPsize
      rw [sub64_of_le hltword (by omega), hsub, Nat.mul_div_cancel _ (by omega),
        mul64_of_lt hfit, Nat.mul_right_comm]
    have hshort : rowsLeft ashift r * cfg.ndata * 2 ^ ashift < n * 2 ^ ashift :=
      Nat.mul_lt_mul_of_pos_right hlt hpos
    have hfirst : cfg.asize (rowsLeft ashift r * cfg.ndata * 2 ^ ashift) ashift =
        rowOffset cfg ashift (rowsLeft ashift r) := by
      have hsmall := hrows.bytes
      rw [asize_eq h hashift (Nat.mul_pos hleft h.ndata_pos) (by omega) hgroupsz, hceil₁]
    rw [if_pos hgt, hpsize, if_pos hshort, if_neg hcross, hfirst,
      add64_of_lt (by omega), hbelow, ← Nat.sub_mul]
    rfl

end Block

/-! ## Distinct children, distinct bytes -/

/-- What the rows of a block are for: distinct children that are no distributed spares, the
data once, and no byte twice. -/
structure Covered (cfg : Config) (offset psize ashift : Nat) : Prop where
  children : ∀ m ∈ cfg.map offset psize ashift, (m.cols.map Column.devidx).Nodup ∧
    ∀ c ∈ m.cols, ∀ spareId < cfg.nspares, cfg.spareChild spareId c.offset ≠ c.devidx
  data : (((cfg.map offset psize ashift).flatMap Map.data).map Column.size).sum = psize
  once : ((cfg.map offset psize ashift).flatMap Map.cols).Pairwise
    (fun c c' => ∀ child byte, ¬ (c.Holds child byte ∧ c'.Holds child byte))

section Covered

variable {cfg : Config} {ashift r n : Nat}

theorem row_devidx_nodup (h : WellFormed cfg) (hrun : Run cfg ashift r n) :
    ((cfg.row (rowOffset cfg ashift r) (n * 2 ^ ashift) ashift).cols.map Column.devidx).Nodup := by
  have hwidth := h.groupwidth_le
  have hdisks := h.ndisks_pos
  have hspares := h.spares
  rw [row_cols h hrun, List.map_map]
  refine List.Nodup.map_on (fun i hi j hj hij => ?_) List.nodup_range
  have hi := List.mem_range.mp hi
  have hj := List.mem_range.mp hj
  have hmod : ∀ p, p % cfg.ndisks < cfg.children := fun p => by
    have := Nat.mod_lt p hdisks
    omega
  have heq := permute_inj h (hmod _) (hmod _) hij
  have hsame : (place cfg (r / height ashift) 0 + i) ≡ (place cfg (r / height ashift) 0 + j)
      [MOD cfg.ndisks] := heq
  have hcancel := Nat.ModEq.add_left_cancel' _ hsame
  rwa [Nat.ModEq, Nat.mod_eq_of_lt (by omega), Nat.mod_eq_of_lt (by omega)] at hcancel

theorem row_not_spare (h : WellFormed cfg) (hrun : Run cfg ashift r n) {c : Column}
    (hc : c ∈ (cfg.row (rowOffset cfg ashift r) (n * 2 ^ ashift) ashift).cols) {spareId : Nat}
    (hspare : spareId < cfg.nspares) : cfg.spareChild spareId c.offset ≠ c.devidx := by
  rw [row_cols h hrun] at hc
  obtain ⟨i, hi, rfl⟩ := List.mem_map.mp hc
  have hi := List.mem_range.mp hi
  have hashift := hrun.ashift_le
  have hdisks := h.ndisks_pos
  have hspares := h.spares
  have hchildren := h.children_le
  have hrh : 0 < rowHeight := Nat.two_pow_pos rowShift
  have hslice : cfg.devslicesz = rowHeight * sliceRows cfg := by
    rw [h.devslicesz_eq, h.groupsz_eq]
    refine Nat.div_eq_of_eq_mul_left hdisks ?_
    rw [Nat.mul_assoc rowHeight, h.sliceRows_mul]
    ring
  have hj : r % height ashift * 2 ^ ashift < rowHeight := by
    rw [← height_mul hashift]
    exact Nat.mul_lt_mul_of_pos_right (Nat.mod_lt _ (height_pos hashift)) (Nat.two_pow_pos ashift)
  have hperm : (address cfg ashift r i).2 / cfg.devslicesz = r / height ashift / cfg.ngroups := by
    rw [hslice, ← Nat.div_div_eq_div_mul, address]
    dsimp only
    rw [Nat.mul_comm _ rowHeight, Nat.mul_add_div hrh, Nat.div_eq_of_lt hj, Nat.add_zero,
      h.slice_of_place hi]
  have hmod := Nat.mod_lt (place cfg (r / height ashift) i) hdisks
  have hindex : sub64 (sub64 cfg.children 1) spareId = cfg.children - 1 - spareId := by
    have hone : sub64 cfg.children 1 = cfg.children - 1 :=
      sub64_of_le (by unfold word; omega) (by omega)
    rw [hone]
    exact sub64_of_le (by unfold word; omega) (by omega)
  intro heq
  unfold Config.spareChild at heq
  dsimp only at heq
  rw [hperm, hindex] at heq
  have := permute_inj h (by omega) (by omega) heq
  omega

/-- A byte of a block lies in a row of the range it is allocated. -/
theorem rows_of_holds (h : WellFormed cfg) (hrows : Rows cfg ashift r n) {c : Column}
    (hc : c ∈ (cfg.map (rowOffset cfg ashift r) (n * 2 ^ ashift) ashift).flatMap Map.cols)
    {child byte : Nat} (hbyte : c.Holds child byte) :
    ∃ s, r ≤ s ∧ s < r + divCeil n cfg.ndata ∧ ∃ i < cfg.groupwidth,
      address cfg ashift s i = (child, byte / 2 ^ ashift * 2 ^ ashift) := by
  rw [map_eq h hrows] at hc
  obtain ⟨m, hm, hc⟩ := List.mem_flatMap.mp hc
  obtain ⟨p, hp, rfl⟩ := List.mem_map.mp hm
  obtain ⟨hrun, hle, hge⟩ := (pieces_spec h hrows).1 p hp
  obtain ⟨t, ht, i, hi, heq⟩ := address_of_holds h hrun hc hbyte
  exact ⟨p.1 + t, by omega, by omega, i, hi, heq⟩

theorem Rows.covered (h : WellFormed cfg) (hrows : Rows cfg ashift r n) :
    Covered cfg (rowOffset cfg ashift r) (n * 2 ^ ashift) ashift := by
  obtain ⟨hruns, hdisjoint, hsum⟩ := pieces_spec h hrows
  refine { children := ?_, data := ?_, once := ?_ }
  · intro m hm
    rw [map_eq h hrows] at hm
    obtain ⟨p, hp, rfl⟩ := List.mem_map.mp hm
    exact ⟨row_devidx_nodup h (hruns p hp).1,
      fun c hc spareId hspare => row_not_spare h (hruns p hp).1 hc hspare⟩
  · rw [map_eq h hrows]
    have hdata : ∀ ps : List (Nat × Nat), (∀ p ∈ ps, Run cfg ashift p.1 p.2) →
        ((((ps.map (fun p => cfg.row (rowOffset cfg ashift p.1) (p.2 * 2 ^ ashift) ashift)).flatMap
          Map.data).map Column.size).sum = (ps.map Prod.snd).sum * 2 ^ ashift) := by
      intro ps hps
      induction ps with
      | nil => simp
      | cons p ps ih =>
        rw [List.map_cons, List.flatMap_cons, List.map_append, List.sum_append,
          ih (fun q hq => hps q (List.mem_cons_of_mem _ hq)),
          row_data_size h (hps p List.mem_cons_self), List.map_cons, List.sum_cons, Nat.add_mul]
    rw [hdata _ (fun p hp => (hruns p hp).1), hsum]
  · rw [map_eq h hrows, List.pairwise_flatMap]
    refine ⟨fun m hm => ?_, ?_⟩
    · obtain ⟨p, hp, rfl⟩ := List.mem_map.mp hm
      have hnodup := row_devidx_nodup h (hruns p hp).1
      refine (List.pairwise_map.mp hnodup).imp (fun {c c'} hne child byte hboth => ?_)
      exact hne (hboth.1.1.trans hboth.2.1.symm)
    · refine List.pairwise_map.mpr (hdisjoint.imp_of_mem ?_)
      intro p q hp hq hpq c hc c' hc' child byte hboth
      obtain ⟨t, ht, i, hi, heq⟩ := address_of_holds h (hruns p hp).1 hc hboth.1
      obtain ⟨t', ht', i', hi', heq'⟩ := address_of_holds h (hruns q hq).1 hc' hboth.2
      have := (address_inj h hrows.ashift_le hi hi' (heq.trans heq'.symm)).1
      omega

end Covered

/-- The rows cover the block, and blocks in disjoint ranges share no byte. -/
theorem map_injective {ndata nparity nspares children ngroups : Nat} {cfg : Config}
    (hnew : Config.new ndata nparity nspares children ngroups = .ok cfg)
    (hsum : ndata + nparity + nspares < word)
    (hslice : (ndata + nparity) * rowHeight * ngroups < word) {ashift offset psize : Nat}
    (hblock : Block cfg ashift offset psize) :
    Covered cfg offset psize ashift ∧
    ∀ offset' psize', Block cfg ashift offset' psize' →
      (∀ x, ¬ ((offset ≤ x ∧ x < offset + cfg.asize psize ashift) ∧
        (offset' ≤ x ∧ x < offset' + cfg.asize psize' ashift))) →
      ∀ c ∈ (cfg.map offset psize ashift).flatMap Map.cols,
      ∀ c' ∈ (cfg.map offset' psize' ashift).flatMap Map.cols,
      ∀ child byte, ¬ (c.Holds child byte ∧ c'.Holds child byte) := by
  have h := Config.new_wellFormed hnew hsum hslice
  have hrow : ∀ {offset psize : Nat}, Block cfg ashift offset psize →
      ∃ r n, offset = rowOffset cfg ashift r ∧ psize = n * 2 ^ ashift := by
    intro offset psize hb
    obtain ⟨r, hr⟩ := hb.onRow
    obtain ⟨n, hn⟩ := hb.sectors
    exact ⟨r, n, by rw [hr, rowOffset]; ring, by rw [hn, Nat.mul_comm]⟩
  obtain ⟨r, n, rfl, rfl⟩ := hrow hblock
  have hrows := hblock.rows h
  refine ⟨hrows.covered h, fun offset' psize' hblock' hdisj c hc c' hc' child byte hboth => ?_⟩
  obtain ⟨r', n', rfl, rfl⟩ := hrow hblock'
  have hrows' := hblock'.rows h
  obtain ⟨s, hrs, hsr, i, hi, heq⟩ := rows_of_holds h hrows hc hboth.1
  obtain ⟨s', hrs', hsr', i', hi', heq'⟩ := rows_of_holds h hrows' hc' hboth.2
  have hsame := (address_inj h hrows.ashift_le hi hi' (heq.trans heq'.symm)).1
  have hunit : 0 < cfg.groupwidth * 2 ^ ashift :=
    Nat.mul_pos (by have := h.groupwidth_ge; omega) (Nat.two_pow_pos ashift)
  have hin : ∀ {r n : Nat}, Rows cfg ashift r n → r ≤ s → s < r + divCeil n cfg.ndata →
      rowOffset cfg ashift r ≤ rowOffset cfg ashift s ∧ rowOffset cfg ashift s <
        rowOffset cfg ashift r + cfg.asize (n * 2 ^ ashift) ashift := by
    intro r n hb hle hlt
    rw [asize_eq h hb.ashift_le hb.pos hb.bytes hb.groupsz_lt]
    simp only [rowOffset, Nat.mul_assoc]
    rw [← Nat.add_mul]
    exact ⟨Nat.mul_le_mul_right _ hle, Nat.mul_lt_mul_of_pos_right hlt hunit⟩
  exact hdisj (rowOffset cfg ashift s)
    ⟨hin hrows hrs hsr, hin hrows' (by omega) (by omega)⟩

/-- One data and one parity column on two children. -/
theorem mirrorlike_config : ∃ cfg, Config.new 1 1 0 2 1 = .ok cfg ∧
    (cfg.ndata, cfg.groupwidth, cfg.groupsz) = (1, 2, 2 ^ 25) ∧
    (cfg.asize 1024 9, cfg.asize 512 9) = (2048, 1024) ∧
    (((cfg.map (65533 * 512) 1024 9).flatMap Map.data).map Column.size).sum = 512 := by
  have hnew : (Config.new 1 1 0 2 1).map (fun cfg =>
      ((cfg.ndata, cfg.groupwidth, cfg.groupsz), (cfg.asize 1024 9, cfg.asize 512 9),
        (((cfg.map (65533 * 512) 1024 9).flatMap Map.data).map Column.size).sum)) =
      .ok ((1, 2, 2 ^ 25), (2048, 1024), 512) := by
    decide +kernel
  cases hcfg : Config.new 1 1 0 2 1 with
  | error e =>
    rw [hcfg] at hnew
    exact absurd hnew (by simp [Except.map])
  | ok cfg =>
    rw [hcfg] at hnew
    simp only [Except.map, Except.ok.injEq, Prod.mk.injEq] at hnew
    exact ⟨cfg, rfl, by simp [hnew], by simp [hnew], by simp [hnew]⟩

/-- A block across the group boundary, and one after it. -/
theorem map_injective_two_blocks : ∃ cfg, Config.new 1 1 0 2 1 = .ok cfg ∧
    Covered cfg (65534 * 512) 1024 9 ∧
    ∀ c ∈ (cfg.map (65534 * 512) 1024 9).flatMap Map.cols,
    ∀ c' ∈ (cfg.map (65538 * 512) 512 9).flatMap Map.cols,
      ∀ child byte, ¬ (c.Holds child byte ∧ c'.Holds child byte) := by
  obtain ⟨cfg, hnew, hfields, hasize, -⟩ := mirrorlike_config
  simp only [Prod.mk.injEq] at hfields hasize
  obtain ⟨hndata, hwidth, hgroupsz⟩ := hfields
  have hblock : Block cfg 9 (65534 * 512) 1024 :=
    { ashift_le := by decide
      onRow := by rw [hwidth]; decide
      sectors := by decide
      pos := by decide
      small := by rw [hndata]; decide
      fits := by rw [hasize.1, hgroupsz]; decide }
  have hblock' : Block cfg 9 (65538 * 512) 512 :=
    { ashift_le := by decide
      onRow := by rw [hwidth]; decide
      sectors := by decide
      pos := by decide
      small := by rw [hndata]; decide
      fits := by rw [hasize.2, hgroupsz]; decide }
  have h := map_injective hnew (by decide) (by decide) hblock
  refine ⟨cfg, hnew, h.1, h.2 _ _ hblock' (fun x hx => ?_)⟩
  rw [hasize.1, hasize.2] at hx
  omega

/-- A block that starts between two rows loses a sector at the group boundary. -/
theorem map_drops_sector : ∃ cfg, Config.new 1 1 0 2 1 = .ok cfg ∧
    2 ^ 9 ∣ 65533 * 512 ∧ 2 ^ 9 ∣ 1024 ∧ ¬ Covered cfg (65533 * 512) 1024 9 := by
  obtain ⟨cfg, hnew, -, -, hdata⟩ := mirrorlike_config
  refine ⟨cfg, hnew, by decide, by decide, fun h => ?_⟩
  have hcovered := h.data
  rw [hdata] at hcovered
  exact absurd hcovered (by decide)

end Draid
end ZvolRescue
