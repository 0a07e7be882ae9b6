import ZvolRescue.Zio.Written

/-!
# Blocks that are lost

A block that fills whole rows at the start of a vdev is on all of its disks.  Where too many of
them are missing it cannot be read (`Good.lost`).
-/

namespace ZvolRescue
namespace Zio

open Lib Raidz

/-! ## Blocks on all children -/

mutual

/-- Blocks of a multiple of this size, at the start of a vdev, are on all of its disks.  Those of
a dRAID may begin on any of them. -/
def Node.span : Node → Nat
  | .leaf _ _ => 512
  | .mirror children => spanOf children
  | .raidz nparity ashift children =>
    (children.length - nparity) * Nat.lcm (2 ^ ashift) (spanOf children)
  | .draid _ _ _ => 0
  | .dspare _ => 0
  | .unsupported _ => 0

def spanOf : List Node → Nat
  | [] => 512
  | node :: nodes => Nat.lcm node.span (spanOf nodes)

end

theorem span_dvd_spanOf {child : Node} {children : List Node} (h : child ∈ children) :
    child.span ∣ spanOf children := by
  induction children with
  | nil => cases h
  | cons node nodes ih =>
    rw [spanOf]
    cases List.mem_cons.mp h with
    | inl heq =>
      rw [heq]
      exact Nat.dvd_lcm_left _ _
    | inr h => exact (ih h).trans (Nat.dvd_lcm_right _ _)

theorem sector_dvd_spanOf (children : List Node) : 512 ∣ spanOf children := by
  induction children with
  | nil => exact dvd_refl _
  | cons node nodes ih => exact ih.trans (Nat.dvd_lcm_right _ _)

/-- The columns of whole rows at the start of a RAID-Z. -/
theorem columnsOf_full {q ashift dcols nparity : Nat} (hq : 0 < q)
    (h : Fits 0 ((dcols - nparity) * (q * 2 ^ ashift)) ashift dcols nparity) :
    columnsOf (Raidz.map 0 ((dcols - nparity) * (q * 2 ^ ashift)) ashift dcols nparity) =
      (List.range dcols).map (fun i =>
        { devidx := i
          offset := 0
          size := q * 2 ^ ashift }) := by
  have hpos := Nat.two_pow_pos ashift
  have hlt := h.parity_lt
  have hndata : 0 < dcols - nparity := by omega
  have hsectors : dataSectors ((dcols - nparity) * (q * 2 ^ ashift)) ashift =
      (dcols - nparity) * q := by
    rw [dataSectors, ← Nat.mul_assoc, divCeil_eq, Nat.mul_mod_left, if_pos rfl,
      Nat.mul_div_cancel _ hpos, Nat.add_zero]
  have hshared := h.shared
  rw [hsectors] at hshared
  have hrows := hshared.rows
  have hceil : divCeil ((dcols - nparity) * q) (dcols - nparity) = q := by
    rw [divCeil_eq, Nat.mul_mod_right, if_pos rfl, Nat.mul_div_cancel_left _ hndata, Nat.add_zero]
  have htot : (shares ((dcols - nparity) * q) dcols nparity).tot = dcols * q := by
    rw [hshared.tot_eq, hceil, ← Nat.add_mul, Nat.sub_add_cancel hlt.le]
  rw [htot, Nat.mul_comm _ dcols] at hrows
  have hlast := hshared.bc_lt
  have hqeq : (shares ((dcols - nparity) * q) dcols nparity).q = q := by
    have hdiv := congrArg (· / dcols) hrows
    simp only [Nat.mul_add_div (show 0 < dcols by omega), Nat.div_eq_of_lt hlast,
      Nat.mul_div_cancel_left _ (show 0 < dcols by omega), Nat.add_zero] at hdiv
    exact hdiv.symm
  have hbc : (shares ((dcols - nparity) * q) dcols nparity).bc = 0 := by
    rw [hqeq] at hrows
    omega
  have hacols : (shares ((dcols - nparity) * q) dcols nparity).acols = dcols := by
    rw [hshared.acols_eq, hqeq, if_neg (by omega)]
  have hcols : (Raidz.map 0 ((dcols - nparity) * (q * 2 ^ ashift)) ashift dcols nparity).cols =
      (List.range dcols).map (fun i =>
        { devidx := i
          offset := 0
          size := q * 2 ^ ashift }) := by
    rw [map_cols h, hsectors]
    dsimp only
    rw [Nat.zero_testBit, if_neg (fun hswap => Bool.false_ne_true hswap.2), gridColumns,
      hshared.full (by rw [hqeq]; omega)]
    refine List.map_congr_left (fun i hi => ?_)
    have hi := List.mem_range.mp hi
    rw [hshared.count_eq hi, hbc, if_neg (Nat.not_lt_zero i), hqeq, Nat.zero_div, Nat.zero_add,
      Nat.mod_eq_of_lt hi, Nat.div_eq_of_lt hi, Nat.zero_mul]
  rw [columnsOf, Map.parity, Map.data, h.map_acols, hsectors, hacols, hcols]
  have hall : ((List.range dcols).map (fun i =>
      ({ devidx := i, offset := 0, size := q * 2 ^ ashift } : Column))).take dcols =
        (List.range dcols).map (fun i => { devidx := i, offset := 0, size := q * 2 ^ ashift }) :=
    List.take_of_length_le (by rw [List.length_map, List.length_range])
  rw [hall]
  exact List.take_append_drop _ _

/-! ## Missing disks -/

/-- No way to read gives anything. -/
def Unread (results : List (Except ReadError (List UInt8))) : Prop := ∀ b, .ok b ∉ results

/-- A block that is a column of `q` sectors on each child. -/
structure WholeRows (nparity ashift : Nat) (children : List Node) (size q : Nat) : Prop where
  pos : 0 < q * 2 ^ ashift
  size_eq : size = (children.length - nparity) * (q * 2 ^ ashift)
  le : q * 2 ^ ashift ≤ size
  span : ∀ child ∈ children, child.span ∣ q * 2 ^ ashift
  columns : columnsOf (Raidz.map 0 (paddedSize size ashift) ashift children.length nparity) =
    (List.range children.length).map (fun i =>
      { devidx := i
        offset := 0
        size := q * 2 ^ ashift })

section Rows

variable {io : Io Id} {nparity ashift size : Nat} {children : List Node}

theorem exists_wholeRows (hle : nparity ≤ 3) (hlt : nparity < children.length)
    (hwide : children.length ≤ nparity + 255) (hashift : ashift ≤ 32) (hpos : 0 < size)
    (hsize : size ≤ 2 ^ 32) (hspan : (Node.raidz nparity ashift children).span ∣ size) :
    ∃ q, WholeRows nparity ashift children size q := by
  obtain ⟨k, hk⟩ := hspan
  obtain ⟨j, hj⟩ : 2 ^ ashift ∣ Nat.lcm (2 ^ ashift) (spanOf children) := Nat.dvd_lcm_left _ _
  have hunit := Nat.two_pow_pos ashift
  have hcolumn : j * k * 2 ^ ashift = Nat.lcm (2 ^ ashift) (spanOf children) * k := by
    rw [hj]
    ring
  have hbytes : size = (children.length - nparity) * (j * k * 2 ^ ashift) := by
    rw [hk, hcolumn, Node.span]
    ring
  have hqpos : 0 < j * k := by
    rcases Nat.eq_zero_or_pos (j * k) with hzero | hzero
    · rw [hbytes, hzero, Nat.zero_mul, Nat.mul_zero] at hpos
      exact absurd hpos (Nat.lt_irrefl 0)
    · exact hzero
  have hpadded : paddedSize size ashift = (children.length - nparity) * (j * k * 2 ^ ashift) := by
    rw [(paddedSize_eq hashift hsize).1, hbytes, ← Nat.mul_assoc, divCeil_eq, Nat.mul_mod_left,
      if_pos rfl, Nat.mul_div_cancel _ hunit, Nat.add_zero]
  have hfits := fits_of_padded hashift hsize (show 0 < word by decide) hle hlt hwide
  rw [hpadded] at hfits
  refine ⟨j * k, { pos := Nat.mul_pos hqpos hunit, size_eq := hbytes, le := ?_, span := ?_,
                   columns := ?_ }⟩
  · rw [hbytes]
    exact Nat.le_mul_of_pos_left _ (by omega)
  · intro child hchild
    rw [hcolumn]
    exact ((span_dvd_spanOf hchild).trans (Nat.dvd_lcm_right _ _)).mul_right k
  · rw [hpadded]
    exact columnsOf_full hqpos hfits

/-- A block of whole rows loses a column for each child that cannot be read. -/
theorem many_lost (hgood : Good (.raidz nparity ashift children)) (hpos : 0 < size)
    (hsize : size ≤ 2 ^ 32) (hspan : (Node.raidz nparity ashift children).span ∣ size)
    (hunread : ∀ child ∈ children, ∀ n, 0 < n → n ≤ 2 ^ 32 → child.span ∣ n →
      child.reads = false → Unread ((readCandidates io child 0 n).run.map Prod.snd))
    (hreads : (Node.raidz nparity ashift children).reads = false) :
    nparity < lostColumns (pureReads none (childrenOf io children))
      (Raidz.map 0 (paddedSize size ashift) ashift children.length nparity) := by
  cases hgood with
  | raidz pos le lt wide ashift_le children_good =>
  obtain ⟨q, hwhole⟩ := exists_wholeRows le lt wide ashift_le hpos hsize hspan
  have hcount := length_filter_range (fun child : Node => !child.reads) children
  have hpositions := @length_le_countP _ (fails (pureReads none (childrenOf io children)))
    (columnsOf (Raidz.map 0 (paddedSize size ashift) ashift children.length nparity))
    ((List.range children.length).filter
      (fun i => (children[i]?).any (fun child => !child.reads)))
    (List.nodup_range.filter _) (fun i hi => ?_)
  · rw [hcount] at hpositions
    rw [Node.reads, decide_eq_false_iff_not, length_sub_countReads] at hreads
    exact (not_le.mp hreads).trans_le hpositions
  obtain ⟨hlt, hany⟩ := List.mem_filter.mp hi
  have hlt := List.mem_range.mp hlt
  rw [List.getElem?_eq_getElem hlt, Option.any_some, Bool.not_eq_true'] at hany
  rw [hwhole.columns, List.getElem?_map, List.getElem?_range hlt, Option.map_some, Option.any_some,
    fails_iff]
  have hget := List.getElem?_eq_getElem hlt
  have hmem := List.getElem_mem hlt
  have hn := hwhole.pos
  have hnone := hunread children[i] hmem (q * 2 ^ ashift) hn (hwhole.le.trans hsize)
    (hwhole.span _ hmem) hany
  rw [pureReads_eq hget (children_good _ hmem) (by dsimp only; omega)]
  dsimp only
  cases hfirst : firstOk ReadError.noMember
      ((readCandidates io children[i] 0 (q * 2 ^ ashift)).run.map Prod.snd) with
  | error e => exact ⟨e, rfl⟩
  | ok b => exact absurd (firstOk_mem hfirst) (hnone b)

end Rows

section Lost

variable {io : Io Id} {nparity ashift size : Nat} {children : List Node}

theorem wholeRows_of_many {m : Map} (hn : Narrow m)
    (hmany : m.nparity < lostColumns (pureReads none (childrenOf io children)) m) :
    ∃ e, (wholeRows none (childrenOf io children)
      [asRead (pureReads none (childrenOf io children)) m]).run = .error e := by
  obtain ⟨e, he⟩ := rebuilt_of_many hn hmany
  rw [wholeRows_cons, he]
  exact ⟨e, rfl⟩

theorem rebuildRows_of_many {m : Map} (hn : Narrow m)
    (hmany : m.nparity < lostColumns (pureReads none (childrenOf io children)) m) :
    ∃ e, (Pool.rebuildRows none (childrenOf io children)
      [asRead (pureReads none (childrenOf io children)) m]).run = .error e := by
  rw [rebuildRows_step]
  dsimp only
  rw [if_pos (not_le.mp (fun hle => absurd ((available_iff hn).mp hle) (not_le.mpr hmany)))]
  exact ⟨_, rfl⟩

/-- A vdev that misses too many disks gives nothing of a block that is on all of them. -/
theorem Good.unread {node : Node} (h : Good node) (hio : Absent io) :
    ∀ n, 0 < n → n ≤ 2 ^ 32 → node.span ∣ n → node.reads = false →
      Unread ((readCandidates io node 0 n).run.map Prod.snd) := by
  induction h with
  | leaf =>
    intro n hpos hsize hspan hreads b hb
    rename_i device guid
    have hdevice : device = none := by simpa [Node.reads] using hreads
    obtain ⟨e, he⟩ := hio 0 n
    have hb : Except.ok b ∈ [io.readLeaf device 0 n] := hb
    rw [hdevice, he] at hb
    cases List.mem_singleton.mp hb
  | mirror children_good ih =>
    intro n hpos hsize hspan hreads b hb
    rename_i children
    rw [readCandidates, readCandidatesOfAll_run, List.map_flatMap] at hb
    obtain ⟨child, hchild, hb⟩ := List.mem_flatMap.mp hb
    have hchildreads : child.reads = false := by
      cases hr : child.reads with
      | false => rfl
      | true =>
        rw [Node.reads_mirror.mpr ⟨child, hchild, hr⟩] at hreads
        cases hreads
    exact ih child hchild n hpos hsize ((span_dvd_spanOf hchild).trans hspan) hchildreads b hb
  | raidz pos le lt wide ashift_le children_good ih =>
    intro n hpos hsize hspan hreads b hb
    rename_i nparity ashift children
    have hmany := @many_lost io _ _ _ _ (.raidz pos le lt wide ashift_le children_good) hpos hsize
      hspan ih hreads
    obtain ⟨e, he⟩ := wholeRows_of_many (narrow_of_raidz hpos hsize le lt wide) hmany
    have hrow : (wholeRows (Node.raidz nparity ashift children).cfg (childrenOf io children)
        (((Node.raidz nparity ashift children).rowMaps 0 n).map
          (asRead (pureReads (Node.raidz nparity ashift children).cfg
            (childrenOf io children))))).run = .error e := he
    rw [readCandidates, readStripe_run, hrow] at hb
    cases List.mem_singleton.mp hb
  | draid wellFormed le length children_good ih =>
    intro n hpos hsize hspan hreads b hb
    exact absurd (Nat.eq_zero_of_zero_dvd hspan) (by omega)

variable (p : Pool) {dva : Ondisk.Dva} {bp : Ondisk.BlkPtr}

theorem readVerifiedAny_lost (i : Nat) (last : ReadError) {nodes : List Node}
    (h : ∀ node ∈ nodes, ∃ e, (p.readVerified io dva bp i node).run.2 = .error e) :
    ∃ e, (p.readVerifiedAny io dva bp i last nodes).run.2 = .error e := by
  induction nodes generalizing last with
  | nil => exact ⟨last, rfl⟩
  | cons node nodes ih =>
    obtain ⟨e, he⟩ := h node List.mem_cons_self
    rw [readVerifiedAny_run, he]
    exact ih _ (fun n hn => h n (List.mem_cons_of_mem _ hn))

/-- A block that is on all disks of a vdev cannot be read from one that misses too many. -/
theorem Good.lost {node : Node} (h : Good node) (hio : Absent io) (i : Nat)
    (hstart : dva.offset = 0) (hpos : 0 < bp.psize) (hsize : bp.psize ≤ 2 ^ 32)
    (hspan : node.span ∣ bp.psize) (hreads : node.reads = false) :
    ∃ e, (p.readVerified io dva bp i node).run.2 = .error e := by
  induction h with
  | leaf =>
    rename_i device guid
    have hdevice : device = none := by simpa [Node.reads] using hreads
    obtain ⟨e, he⟩ := hio dva.offset bp.psize
    rw [Pool.readVerified, readVerifiedLeaf_run, hdevice, he]
    exact ⟨e, rfl⟩
  | mirror children_good ih =>
    rw [Pool.readVerified]
    refine readVerifiedAny_lost p i _ (fun child hchild => ih child hchild
      ((span_dvd_spanOf hchild).trans hspan) ?_)
    cases hr : child.reads with
    | false => rfl
    | true =>
      rw [Node.reads_mirror.mpr ⟨child, hchild, hr⟩] at hreads
      cases hreads
  | raidz pos le lt wide ashift_le children_good _ =>
    rename_i nparity ashift children
    have hmany := @many_lost io _ _ _ _ (.raidz pos le lt wide ashift_le children_good) hpos hsize
      hspan (fun child hchild => (children_good child hchild).unread hio) hreads
    obtain ⟨e, he⟩ := rebuildRows_of_many
      (@narrow_of_raidz 0 _ _ _ _ hpos hsize le lt wide) hmany
    rw [← hstart] at he
    exact ⟨e.2, p.readStriped_lost i he⟩
  | draid wellFormed le length children_good _ =>
    exact absurd (Nat.eq_zero_of_zero_dvd hspan) (by omega)

end Lost

/-! ## Blank vdevs -/

theorem generateParity_blank {k : Nat} (hk : 0 < k) (n nparity : Nat) :
    generateParity (List.replicate k (List.replicate n 0)) nparity =
      List.replicate nparity (List.replicate n 0) := by
  have hlongest : longest (List.replicate k (List.replicate n (0 : UInt8))) = n := by
    rw [longest, List.map_replicate, List.length_replicate]
    induction k with
    | zero => exact absurd hk (Nat.lt_irrefl 0)
    | succ k ih =>
      rcases Nat.eq_zero_or_pos k with rfl | hpos
      · simp
      · rw [List.replicate_succ', List.foldl_append, ih hpos]
        simp
  have hsums : ∀ pos, sumsAt (List.replicate k (List.replicate n (0 : UInt8))) pos =
      { p := 0, q := 0, r := 0 } := by
    intro pos
    clear hlongest hk
    induction k with
    | zero => rfl
    | succ k ih =>
      have hbyte : byteAt (List.replicate n (0 : UInt8)) pos = 0 := by
        rw [byteAt, List.getD_eq_getElem?_getD, List.getElem?_replicate]
        split <;> rfl
      rw [List.replicate_succ', sumsAt_concat, ih, hbyte, Sums.step]
      have hq : gfMul 0 2 ^^^ 0 = 0 := by decide
      have hr : gfMul 0 4 ^^^ 0 = 0 := by decide
      split
      · rfl
      · simp [hq, hr]
  have hrow : ∀ row, Sums.row { p := 0, q := 0, r := 0 } row = 0 := by
    intro row
    rw [Sums.row.eq_def]
    split <;> rfl
  rw [generateParity, hlongest]
  simp only [hsums, hrow]
  rw [List.map_const', List.map_const', List.length_range, List.length_range]

mutual

/-- The devices under a vdev. -/
def Node.devices : Node → List Nat
  | .leaf device _ => device.toList
  | .mirror children => devicesOf children
  | .raidz _ _ children => devicesOf children
  | .draid _ _ children => devicesOf children
  | .dspare _ => []
  | .unsupported _ => []

def devicesOf : List Node → List Nat
  | [] => []
  | node :: nodes => node.devices ++ devicesOf nodes

end

theorem mem_devicesOf {child : Node} {children : List Node} (h : child ∈ children) {index : Nat}
    (hindex : index ∈ child.devices) : index ∈ devicesOf children := by
  induction children with
  | nil => cases h
  | cons node nodes ih =>
    rw [devicesOf, List.mem_append]
    cases List.mem_cons.mp h with
    | inl heq =>
      rw [← heq]
      exact Or.inl hindex
    | inr h => exact Or.inr (ih h)

/-- Devices full of zeros hold the block of zeros. -/
theorem Good.holds_blank {node : Node} (h : Good node) {io : Io Id}
    (hblank : ∀ index ∈ node.devices, ∀ offset size,
      io.readLeaf (some index) offset size = .ok (List.replicate size 0)) :
    ∀ n, 0 < n → n ≤ 2 ^ 32 → node.span ∣ n → Holds io node 0 n (List.replicate n 0) := by
  induction h with
  | leaf =>
    intro n hpos hsize hspan
    refine .leaf (fun index hindex => ?_)
    subst hindex
    exact hblank index (List.mem_singleton_self _) 0 n
  | mirror children_good ih =>
    intro n hpos hsize hspan
    refine .mirror (fun child hchild => ih child hchild (fun index hindex =>
      hblank index (mem_devicesOf hchild hindex)) n hpos hsize
        ((span_dvd_spanOf hchild).trans hspan))
  | raidz pos le lt wide ashift_le children_good ih =>
    intro n hpos hsize hspan
    rename_i nparity ashift children
    obtain ⟨q, hwhole⟩ := exists_wholeRows le lt wide ashift_le hpos hsize hspan
    have hstripe : stripe (Raidz.map 0 (paddedSize n ashift) ashift children.length nparity)
        (List.replicate (children.length - nparity) (List.replicate (q * 2 ^ ashift) 0)) =
        List.replicate children.length (List.replicate (q * 2 ^ ashift) 0) := by
      show generateParity _ nparity ++ _ = _
      rw [generateParity_blank (by omega), ← List.replicate_add, Nat.add_sub_cancel' lt.le]
    refine .striped [(Raidz.map 0 (paddedSize n ashift) ashift children.length nparity,
      List.replicate (children.length - nparity) (List.replicate (q * 2 ^ ashift) 0))]
      (List.cons_ne_nil _ _) rfl trivial ?_ ?_ ?_
    · rw [List.flatMap_singleton, List.flatten_replicate_replicate, ← hwhole.size_eq,
        List.take_replicate, Nat.min_self]
    · intro w hw
      rw [List.mem_singleton.mp hw]
      dsimp only
      rw [hstripe, hwhole.columns, List.map_replicate, List.length_replicate, List.map_map]
      symm
      rw [List.eq_replicate_iff]
      simp
    · intro w hw i c b child hc hb hchild hzero
      rw [List.mem_singleton.mp hw] at hc hb
      dsimp only at hc hb
      rw [hwhole.columns] at hc
      rw [hstripe] at hb
      obtain ⟨j, hj, rfl⟩ := List.mem_map.mp (List.mem_of_getElem? hc)
      obtain rfl := List.eq_of_mem_replicate (List.mem_of_getElem? hb)
      have hmem := List.mem_of_getElem? hchild
      exact ih child hmem (fun index hindex => hblank index (mem_devicesOf hmem hindex)) _
        hwhole.pos (hwhole.le.trans hsize) (hwhole.span child hmem)
  | draid wellFormed le length children_good ih =>
    intro n hpos hsize hspan
    exact absurd (Nat.eq_zero_of_zero_dvd hspan) (by omega)

end Zio
end ZvolRescue
