import ZvolRescue.Zio.Honest
import ZvolRescue.Zio.Spares

/-!
# Blocks as they were written

The bytes of a block are on every copy of a mirror and, as columns with their parity, on the
children of a RAID-Z or dRAID.  Where the devices that are there give what was written to them, a
vdev that has enough of them gives the block (`Good.serves`), however vdevs are nested in it.
-/

namespace ZvolRescue
namespace Zio

open Lib Raidz

/-! ## The columns of a row -/

/-- The columns of a row that are no padding. -/
def columnsOf (m : Map) : List Column := m.parity ++ m.data

/-- What is written to them. -/
def stripe (m : Map) (data : List (List UInt8)) : List (List UInt8) :=
  generateParity data m.nparity ++ data

/-- The columns of a row are on different children. -/
structure Spread (m : Map) (children : Nat) : Prop where
  narrow : Narrow m
  distinct : ((columnsOf m).map Column.devidx).Nodup
  inside : ∀ c ∈ columnsOf m, c.devidx < children
  small : ∀ c ∈ columnsOf m, c.size ≤ 2 ^ 32 ∧ c.offset < word

theorem columnsOf_sublist (m : Map) : (columnsOf m).Sublist m.cols := by
  conv_rhs => rw [← List.take_append_drop m.nparity m.cols]
  exact (List.Sublist.refl _).append ((List.take_sublist _ _).drop _)

section Raidz

variable {offset size ashift dcols nparity : Nat}

/-- `size` rounded up to a sector, where nothing wraps. -/
theorem paddedSize_eq (hashift : ashift ≤ 32) (hsize : size ≤ 2 ^ 32) :
    paddedSize size ashift = divCeil size (2 ^ ashift) * 2 ^ ashift ∧
      paddedSize size ashift ≤ 2 ^ 32 := by
  have hunit : shl64 1 ashift = 2 ^ ashift := shl64_one (by omega)
  have hle : divCeil size (2 ^ ashift) * 2 ^ ashift ≤ 2 ^ 32 := by
    have hsplit : (2 : Nat) ^ 32 = 2 ^ (32 - ashift) * 2 ^ ashift := by
      rw [← Nat.pow_add, Nat.sub_add_cancel hashift]
    rw [hsplit] at hsize ⊢
    exact Nat.mul_le_mul_right _ (divCeil_le (Nat.two_pow_pos ashift) hsize)
  rw [paddedSize, hunit, mul64_of_lt (by unfold word; omega)]
  exact ⟨rfl, hle⟩

theorem dataSectors_padded (hashift : ashift ≤ 32) (hsize : size ≤ 2 ^ 32) :
    dataSectors (paddedSize size ashift) ashift = divCeil size (2 ^ ashift) := by
  have hpos := Nat.two_pow_pos ashift
  rw [dataSectors, (paddedSize_eq hashift hsize).1]
  refine Nat.le_antisymm (divCeil_le hpos (le_refl _)) ?_
  exact Nat.le_of_mul_le_mul_right (le_divCeil_mul hpos) hpos

/-- The arithmetic of a block of a RAID-Z does not wrap. -/
theorem fits_of_padded (hashift : ashift ≤ 32) (hsize : size ≤ 2 ^ 32) (hoffset : offset < word)
    (hle : nparity ≤ 3) (hdcols : nparity < dcols) (hwide : dcols ≤ nparity + 255) :
    Fits offset (paddedSize size ashift) ashift dcols nparity where
  offset_lt := hoffset
  parity_lt := hdcols
  dcols_le := by unfold word; omega
  alloc_lt := by
    have hbytes := (paddedSize_eq hashift hsize).2
    rw [(paddedSize_eq hashift hsize).1] at hbytes
    rw [allocSectors, dataSectors_padded hashift hsize]
    generalize divCeil size (2 ^ ashift) = s at hbytes
    have hunit : 2 ^ ashift ≤ 2 ^ 32 := Nat.pow_le_pow_right (by decide) hashift
    have hrows : divCeil s (dcols - nparity) ≤ s :=
      divCeil_le (by omega) (Nat.le_mul_of_pos_right s (by omega))
    have hsectors : s + nparity * divCeil s (dcols - nparity) + nparity + 1 ≤ 4 * s + 4 := by
      have := Nat.mul_le_mul hle hrows
      omega
    calc (s + nparity * divCeil s (dcols - nparity) + nparity + 1) * 2 ^ ashift
        ≤ (4 * s + 4) * 2 ^ ashift := Nat.mul_le_mul_right _ hsectors
      _ = 4 * (s * 2 ^ ashift) + 4 * 2 ^ ashift := by ring
      _ < word := by unfold word; omega

/-- A column has no more sectors than there are data. -/
theorem count_le {s : Nat} {sh : Shares} (h : Shared s dcols nparity sh) (hlt : nparity < dcols)
    {c : Nat} (hc : c < dcols) : sh.count c ≤ s := by
  have hq : sh.q ≤ (dcols - nparity) * sh.q := Nat.le_mul_of_pos_left _ (by omega)
  have hsectors := h.sectors
  have hparity := h.parity
  rw [h.count_eq hc]
  split
  · omega
  · omega

theorem spread_of_raidz (hpos : 0 < size) (hashift : ashift ≤ 32) (hsize : size ≤ 2 ^ 32)
    (hoffset : offset < word) (hle : nparity ≤ 3) (hdcols : nparity < dcols)
    (hwide : dcols ≤ nparity + 255) :
    Spread (Raidz.map offset (paddedSize size ashift) ashift dcols nparity) dcols := by
  have hfits := fits_of_padded hashift hsize hoffset hle hdcols hwide
  obtain ⟨hnodup, hinside⟩ := hfits.laidOut.children
  have hsub := columnsOf_sublist (Raidz.map offset (paddedSize size ashift) ashift dcols nparity)
  refine { narrow := narrow_of_raidz hpos hsize hle hdcols hwide
           distinct := hnodup.sublist (hsub.map _)
           inside := fun c hc => hinside c (hsub.subset hc)
           small := fun c hc => ?_ }
  have hc := (map_cols_perm hfits).mem_iff.mp (hsub.subset hc)
  obtain ⟨i, hi, rfl⟩ := List.mem_map.mp hc
  have hshared := hfits.shared
  have hi : i < dcols := (List.mem_range.mp hi).trans_le hshared.scols_le
  have hcount := count_le hshared hdcols hi
  rw [dataSectors_padded hashift hsize] at hcount
  have hbytes := (paddedSize_eq hashift hsize).2
  rw [(paddedSize_eq hashift hsize).1] at hbytes
  refine ⟨?_, ?_⟩
  · rw [dataSectors_padded hashift hsize]
    exact (Nat.mul_le_mul_right _ hcount).trans hbytes
  · have hdiv : (offset / 2 ^ ashift + i) / dcols ≤ offset / 2 ^ ashift / dcols + 1 := by
      refine Nat.lt_succ_iff.mp ((Nat.div_lt_iff_lt_mul (by omega)).mpr ?_)
      have hmod := Nat.mod_lt (offset / 2 ^ ashift) (show 0 < dcols by omega)
      have hsplit := Nat.div_add_mod (offset / 2 ^ ashift) dcols
      rw [Nat.mul_comm] at hsplit
      rw [Nat.succ_mul, Nat.succ_mul]
      omega
    by_cases hd : 2 ≤ dcols
    · exact (Nat.mul_le_mul_right _ hdiv).trans_lt (hfits.nextRow hd)
    · have hone : dcols = 1 := by omega
      subst hone
      obtain rfl : i = 0 := by omega
      rw [Nat.add_zero, Nat.div_one]
      exact (Nat.div_mul_le_self offset _).trans_lt hoffset

end Raidz

section Draid

open Draid

variable {cfg : Config} {ashift r n : Nat}

theorem spread_of_run (h : WellFormed cfg) (hle : cfg.nparity ≤ 3) (hrun : Run cfg ashift r n) :
    Spread (cfg.row (rowOffset cfg ashift r) (n * 2 ^ ashift) ashift) cfg.children := by
  have hsub := columnsOf_sublist (cfg.row (rowOffset cfg ashift r) (n * 2 ^ ashift) ashift)
  refine { narrow := narrow_of_draid h hle _ _ _
           distinct := (row_devidx_nodup h hrun).sublist (hsub.map _)
           inside := fun c hc => ?_
           small := fun c hc => ?_ }
  · have hc := hsub.subset hc
    rw [row_cols h hrun] at hc
    obtain ⟨i, hi, rfl⟩ := List.mem_map.mp hc
    exact permute_lt h _ _
  have hc := hsub.subset hc
  rw [row_cols h hrun] at hc
  obtain ⟨i, hi, rfl⟩ := List.mem_map.mp hc
  have hi := List.mem_range.mp hi
  have hheight := height_mul hrun.ashift_le
  refine ⟨?_, ?_⟩
  · have hcount : (shares n cfg.groupwidth cfg.nparity).count i ≤ height ashift :=
      (hrun.count_le h i).trans (by have := hrun.inside; omega)
    have hbytes := Nat.mul_le_mul_right (2 ^ ashift) hcount
    rw [hheight] at hbytes
    exact hbytes.trans (by decide)
  · have hrow : r % height ashift * 2 ^ ashift < rowHeight := by
      rw [← hheight]
      exact Nat.mul_lt_mul_of_pos_right (Nat.mod_lt _ (height_pos hrun.ashift_le))
        (Nat.two_pow_pos ashift)
    have hplace : place cfg (r / height ashift) i / cfg.ndisks + 1 ≤
        (r / height ashift + 1) * cfg.groupwidth := by
      have hdiv := Nat.div_le_self (place cfg (r / height ashift) i) cfg.ndisks
      rw [place] at hdiv ⊢
      rw [Nat.add_mul]
      omega
    have hbytes := Nat.mul_le_mul_right rowHeight hplace
    have hfits := hrun.fits
    rw [h.groupsz_eq, ← Nat.mul_assoc] at hfits
    show place cfg (r / height ashift) i / cfg.ndisks * rowHeight + r % height ashift * 2 ^ ashift <
      word
    rw [Nat.add_mul] at hbytes
    omega

/-- So are those of every row of a block as it is allocated. -/
theorem spread_of_draid (h : WellFormed cfg) (hle : cfg.nparity ≤ 3) {offset psize : Nat}
    (hblock : Draid.Block cfg ashift offset psize) {m : Map} (hm : m ∈ cfg.map offset psize ashift) :
    Spread m cfg.children := by
  obtain ⟨r, hr⟩ := hblock.onRow
  obtain ⟨n, hn⟩ := hblock.sectors
  have hoffset : offset = rowOffset cfg ashift r := by
    rw [hr, rowOffset]
    ring
  rw [Nat.mul_comm] at hn
  subst hoffset hn
  have hrows := hblock.rows h
  rw [map_eq h hrows] at hm
  obtain ⟨p, hp, rfl⟩ := List.mem_map.mp hm
  exact spread_of_run h hle ((pieces_spec h hrows).1 p hp).1

end Draid

/-! ## What vdevs hold -/

/-- A place of a block under a vdev: a dRAID allocates whole rows. -/
def Node.Takes (node : Node) (offset size : Nat) : Prop :=
  match node with
  | .draid cfg ashift _ => Draid.Block cfg ashift offset (paddedSize size ashift)
  | _ => True

/-- The devices under a vdev, as far as they are there, give the bytes that were written to them
for a block at this place. -/
inductive Holds (io : Io Id) : Node → (offset size : Nat) → List UInt8 → Prop
  | leaf {device : Option Nat} {guid offset size : Nat} {bytes : List UInt8}
    (gives : ∀ index, device = some index → io.readLeaf device offset size = .ok bytes) :
    Holds io (.leaf device guid) offset size bytes
  | mirror {children : List Node} {offset size : Nat} {bytes : List UInt8}
    (copies : ∀ child ∈ children, Holds io child offset size bytes) :
    Holds io (.mirror children) offset size bytes
  | striped {node : Node} {offset size : Nat} {bytes : List UInt8}
    (written : List (Map × List (List UInt8))) (any : written ≠ [])
    (maps : written.map Prod.fst = node.rowMaps offset size) (takes : node.Takes offset size)
    (whole : (written.flatMap (fun w => w.2.flatten)).take size = bytes)
    (fits : ∀ w ∈ written,
      (stripe w.1 w.2).map List.length = (columnsOf w.1).map Column.size)
    (columns : ∀ w ∈ written, ∀ (i : Nat) c b child, (columnsOf w.1)[i]? = some c →
      (stripe w.1 w.2)[i]? = some b → node.children[c.devidx]? = some child → c.size ≠ 0 →
      Holds io child c.offset c.size b) :
    Holds io node offset size bytes

/-- A vdev of disks, mirrors, RAID-Z and dRAID that the arithmetic of the reader is right for. -/
inductive Good : Node → Prop
  | leaf {device : Option Nat} {guid : Nat} : Good (.leaf device guid)
  | mirror {children : List Node} (children_good : ∀ child ∈ children, Good child) :
    Good (.mirror children)
  | raidz {nparity ashift : Nat} {children : List Node} (pos : 1 ≤ nparity) (le : nparity ≤ 3)
    (lt : nparity < children.length) (wide : children.length ≤ nparity + 255)
    (ashift_le : ashift ≤ 32) (children_good : ∀ child ∈ children, Good child) :
    Good (.raidz nparity ashift children)
  | draid {cfg : Draid.Config} {ashift : Nat} {children : List Node}
    (wellFormed : Draid.WellFormed cfg) (le : cfg.nparity ≤ 3)
    (length : cfg.children = children.length) (children_good : ∀ child ∈ children, Good child) :
    Good (.draid cfg ashift children)

mutual

/-- Enough of the devices under a vdev are there. -/
def Node.reads : Node → Bool
  | .leaf device _ => device.isSome
  | .mirror children => 0 < countReads children
  | .raidz nparity _ children => children.length - countReads children ≤ nparity
  | .draid cfg _ children => children.length - countReads children ≤ cfg.nparity
  | .dspare _ => false
  | .unsupported _ => false

def countReads : List Node → Nat
  | [] => 0
  | node :: nodes => (if node.reads then 1 else 0) + countReads nodes

end

theorem countReads_eq (nodes : List Node) : countReads nodes = nodes.countP Node.reads := by
  induction nodes with
  | nil => rfl
  | cons node nodes ih => rw [countReads, ih, List.countP_cons, Nat.add_comm]

theorem Node.reads_mirror {children : List Node} :
    (Node.mirror children).reads = true ↔ ∃ child ∈ children, child.reads = true := by
  rw [Node.reads, decide_eq_true_iff, countReads_eq, List.countP_pos_iff]

theorem length_sub_countReads (children : List Node) :
    children.length - countReads children = children.countP (fun child => !child.reads) := by
  rw [countReads_eq]
  have hcount := List.length_eq_countP_add_countP Node.reads (l := children)
  simp only [decide_not, Bool.decide_eq_true] at hcount
  omega

/-- The parity columns of a row of this vdev. -/
def Node.parity : Node → Nat
  | .raidz nparity _ _ => nparity
  | .draid cfg _ _ => cfg.nparity
  | _ => 0

namespace Good

variable {node : Node} {offset size : Nat}

theorem children_good' (h : Good node) {child : Node} (hchild : child ∈ node.children) :
    Good child := by
  cases h with
  | leaf => cases hchild
  | mirror children_good => exact children_good child hchild
  | raidz _ _ _ _ _ children_good => exact children_good child hchild
  | draid _ _ _ children_good => exact children_good child hchild

theorem asChild (h : Good node) {m : Type → Type}
    (read : (offset size : Nat) → m (Except ReadError (List UInt8))) :
    node.asChild read = .other read := by
  cases h <;> rfl

theorem spread (h : Good node) (hpos : 0 < size) (hsize : size ≤ 2 ^ 32) (hoffset : offset < word)
    (htakes : node.Takes offset size) {m : Map} (hm : m ∈ node.rowMaps offset size) :
    Spread m node.children.length ∧ m.nparity = node.parity := by
  cases h with
  | leaf => cases hm
  | mirror _ => cases hm
  | raidz pos le lt wide ashift_le _ =>
    obtain rfl := List.mem_singleton.mp hm
    exact ⟨spread_of_raidz hpos ashift_le hsize hoffset le lt wide, rfl⟩
  | draid wellFormed le length _ =>
    refine ⟨?_, ?_⟩
    · rw [Node.children, ← length]
      exact spread_of_draid wellFormed le htakes hm
    · obtain ⟨o, n, rfl⟩ := row_of_mem_map hm
      rfl

/-- A vdev that has enough devices misses no more children than a row has parity. -/
theorem few_of_reads (h : Good node) (hrows : node.rowMaps offset size ≠ [])
    (hreads : node.reads = true) :
    node.children.countP (fun child => !child.reads) ≤ node.parity := by
  cases h with
  | leaf => exact absurd rfl hrows
  | mirror _ => exact absurd rfl hrows
  | raidz _ _ _ _ _ _ =>
    rw [Node.reads, decide_eq_true_iff, length_sub_countReads] at hreads
    exact hreads
  | draid _ _ _ _ =>
    rw [Node.reads, decide_eq_true_iff, length_sub_countReads] at hreads
    exact hreads

end Good

/-! ## Reads of what is held -/

/-- Every way to read that succeeds gives these bytes and, if there is enough, one succeeds. -/
structure Answers (results : List (Except ReadError (List UInt8))) (bytes : List UInt8)
    (enough : Prop) : Prop where
  only : ∀ b, .ok b ∈ results → b = bytes
  some : enough → .ok bytes ∈ results

theorem firstOk_mem {α : Type} {last : ReadError} {results : List (Except ReadError α)} {a : α}
    (h : firstOk last results = .ok a) : .ok a ∈ results := by
  induction results generalizing last with
  | nil => cases h
  | cons result results ih =>
    cases result with
    | ok b =>
      cases h
      exact List.mem_cons_self
    | error e => exact List.mem_cons_of_mem _ (ih h)

theorem firstOk_isOk {α : Type} {last : ReadError} {results : List (Except ReadError α)} {a : α}
    (h : .ok a ∈ results) : ∃ b, firstOk last results = .ok b := by
  induction results generalizing last with
  | nil => cases h
  | cons result results ih =>
    cases result with
    | ok b => exact ⟨b, rfl⟩
    | error e =>
      cases List.mem_cons.mp h with
      | inl heq => cases heq
      | inr hmem => exact ih hmem

section Answers

variable {results : List (Except ReadError (List UInt8))} {bytes : List UInt8} {enough : Prop}
  {last : ReadError}

theorem Answers.eq_of_firstOk (h : Answers results bytes enough) {b : List UInt8}
    (hb : firstOk last results = .ok b) : b = bytes :=
  h.only b (firstOk_mem hb)

theorem Answers.firstOk_eq (h : Answers results bytes enough) (henough : enough) :
    firstOk last results = .ok bytes := by
  obtain ⟨b, hb⟩ := @firstOk_isOk _ last _ _ (h.some henough)
  rw [hb, h.eq_of_firstOk hb]

end Answers

/-- The ways to read this vdev, whatever it holds, are right. -/
def Delivers (io : Io Id) (node : Node) : Prop :=
  ∀ {offset size : Nat} {bytes : List UInt8}, 0 < size → size ≤ 2 ^ 32 → offset < word →
    Holds io node offset size bytes →
    Answers ((readCandidates io node offset size).run.map Prod.snd) bytes (node.reads = true)

section Columns

variable {io : Io Id} {cfg : Option Draid.Config} {children : List Node}

theorem pureReads_empty {c : Column} (hsize : c.size = 0) :
    pureReads cfg (childrenOf io children) c = .ok [] := by
  rw [pureReads, readColumn, if_pos hsize]
  rfl

theorem pureReads_eq {c : Column} {child : Node} (hchild : children[c.devidx]? = some child)
    (hgood : Good child) (hsize : c.size ≠ 0) :
    pureReads cfg (childrenOf io children) c = firstOk .noMember
      ((readCandidates io child c.offset c.size).run.map Prod.snd) := by
  obtain ⟨hlt, -⟩ := List.getElem?_eq_some_iff.mp hchild
  obtain ⟨n, hn⟩ : ∃ n, children.length = n + 1 := ⟨children.length - 1, by omega⟩
  rw [pureReads, readColumn, if_neg hsize, childrenOf_eq, List.length_map, hn, readColumnFrom,
    List.getElem?_map, hchild, Option.map_some, hgood.asChild]
  rfl

variable {m : Map} {data : List (List UInt8)}

/-- The columns of a row read as they were written, where they read. -/
theorem honest_of_delivers (hgood : ∀ child ∈ children, Good child)
    (hdelivers : ∀ child ∈ children, Delivers io child) (hspread : Spread m children.length)
    (hfits : (stripe m data).map List.length = (columnsOf m).map Column.size)
    (hcolumns : ∀ (i : Nat) c b child, (columnsOf m)[i]? = some c → (stripe m data)[i]? = some b →
      children[c.devidx]? = some child → c.size ≠ 0 → Holds io child c.offset c.size b) :
    Honest (pureReads cfg (childrenOf io children)) m data ∧
      lostColumns (pureReads cfg (childrenOf io children)) m ≤
        children.countP (fun child => !child.reads) := by
  have hchild : ∀ c ∈ columnsOf m, ∃ child, children[c.devidx]? = some child ∧ child ∈ children :=
    fun c hc => ⟨_, List.getElem?_eq_getElem (hspread.inside c hc), List.getElem_mem _⟩
  have hbytes : ∀ (i : Nat) c, (columnsOf m)[i]? = some c →
      ∃ b, (stripe m data)[i]? = some b ∧ b.length = c.size := by
    intro i c hc
    have hsize := congrArg (fun l => l[i]?) hfits
    simp only [List.getElem?_map, hc, Option.map_some] at hsize
    exact Option.map_eq_some_iff.mp hsize
  have hanswers : ∀ (i : Nat) c b child, (columnsOf m)[i]? = some c → (stripe m data)[i]? = some b →
      children[c.devidx]? = some child → child ∈ children → c.size ≠ 0 →
      Answers ((readCandidates io child c.offset c.size).run.map Prod.snd) b (child.reads = true) := by
    intro i c b child hc hb hget hmem hsize
    obtain ⟨hsmall, hoffset⟩ := hspread.small c (List.mem_of_getElem? hc)
    exact hdelivers child hmem (by omega) hsmall hoffset (hcolumns i c b child hc hb hget hsize)
  have hread : ∀ (i : Nat) c b, (columnsOf m)[i]? = some c →
      pureReads cfg (childrenOf io children) c = .ok b → (stripe m data)[i]? = some b := by
    intro i c b hc hok
    obtain ⟨b', hb', hlen⟩ := hbytes i c hc
    by_cases hsize : c.size = 0
    · rw [pureReads_empty hsize] at hok
      cases hok
      rw [hb', List.length_eq_zero_iff.mp (hlen.trans hsize)]
    · obtain ⟨child, hget, hmem⟩ := hchild c (List.mem_of_getElem? hc)
      rw [pureReads_eq hget (hgood child hmem) hsize] at hok
      rw [(hanswers i c b' child hc hb' hget hmem hsize).eq_of_firstOk hok, hb']
  have hparity : (generateParity data m.nparity).length = m.parity.length := by
    rw [hspread.narrow.parity_length, generateParity, List.length_map, List.length_range]
  refine ⟨{ fits := ?_, data := fun i c b hc hok => ?_, parity := fun i c b hc hok => ?_ }, ?_⟩
  · rw [stripe, columnsOf, List.map_append, List.map_append] at hfits
    exact (List.append_inj hfits (by rw [List.length_map, List.length_map, hparity])).2
  · have hstripe := hread (m.parity.length + i) c b
      (by rw [columnsOf, List.getElem?_append_right (by omega), Nat.add_sub_cancel_left]; exact hc)
      hok
    rw [stripe, List.getElem?_append_right (by omega), hparity, Nat.add_sub_cancel_left] at hstripe
    exact hstripe
  · obtain ⟨hlt, -⟩ := List.getElem?_eq_some_iff.mp hc
    have hstripe := hread i c b (by rw [columnsOf, List.getElem?_append_left hlt]; exact hc) hok
    rw [stripe, List.getElem?_append_left (by omega)] at hstripe
    exact hstripe
  · have hpositions := @length_le_countP _ (fun child : Node => !child.reads) children
      (((columnsOf m).filter (fails (pureReads cfg (childrenOf io children)))).map Column.devidx)
      (hspread.distinct.sublist (List.filter_sublist.map _)) (fun d hd => ?_)
    · rwa [List.length_map, ← List.countP_eq_length_filter] at hpositions
    · obtain ⟨c, hc, rfl⟩ := List.mem_map.mp hd
      obtain ⟨hc, hfails⟩ := List.mem_filter.mp hc
      obtain ⟨e, he⟩ := fails_iff.mp hfails
      obtain ⟨child, hget, hmem⟩ := hchild c hc
      have hsize : c.size ≠ 0 := by
        intro hsize
        rw [pureReads_empty hsize] at he
        cases he
      rw [hget, Option.any_some, Bool.not_eq_true']
      by_contra hreads
      obtain ⟨i, hi⟩ := List.mem_iff_getElem?.mp hc
      obtain ⟨b, hb, -⟩ := hbytes i c hi
      rw [pureReads_eq hget (hgood child hmem) hsize,
        (hanswers i c b child hi hb hget hmem hsize).firstOk_eq (by simpa using hreads)] at he
      cases he

end Columns

section Striped

variable {io : Io Id} {node : Node} {offset size : Nat} {bytes : List UInt8}

/-- What a block on columns is made of. -/
structure Stripes (io : Io Id) (node : Node) (offset size : Nat) (bytes : List UInt8)
    (written : List (Map × List (List UInt8))) : Prop where
  maps : written.map Prod.fst = node.rowMaps offset size
  whole : (written.flatMap (fun w => w.2.flatten)).take size = bytes
  honest : ∀ w ∈ written,
    Honest (pureReads node.cfg (childrenOf io node.children)) w.1 w.2 ∧ Narrow w.1
  few : node.reads = true → FewLost (pureReads node.cfg (childrenOf io node.children)) written

/-- Where the children deliver, the rows of the block are honest. -/
theorem Holds.stripes (h : Holds io node offset size bytes) (hgood : Good node)
    (hstriped : node.rowMaps offset size ≠ [])
    (hdelivers : ∀ child ∈ node.children, Delivers io child) (hpos : 0 < size)
    (hsize : size ≤ 2 ^ 32) (hoffset : offset < word) :
    ∃ written, Stripes io node offset size bytes written := by
  cases h with
  | leaf _ => exact absurd rfl hstriped
  | mirror _ => exact absurd rfl hstriped
  | striped written any maps takes whole fits columns =>
    have hrow : ∀ w ∈ written, Spread w.1 node.children.length ∧ w.1.nparity = node.parity :=
      fun w hw => hgood.spread hpos hsize hoffset takes
        (maps ▸ List.mem_map_of_mem hw)
    have hhonest := fun w hw => @honest_of_delivers io node.cfg node.children w.1 w.2
      (fun child hchild => hgood.children_good' hchild) hdelivers (hrow w hw).1 (fits w hw)
      (columns w hw)
    refine ⟨written, maps, whole, fun w hw => ⟨(hhonest w hw).1, (hrow w hw).1.narrow⟩, ?_⟩
    intro hreads w hw
    rw [(hrow w hw).2]
    exact (hhonest w hw).2.trans (hgood.few_of_reads hstriped hreads)

/-- The one way to read a stripe. -/
theorem readStripe_run (node : Node) (children : List (Child Id)) (offset size : Nat) :
    (readStripe node children offset size).run.map Prod.snd =
      [match (wholeRows node.cfg children ((node.rowMaps offset size).map
          (asRead (pureReads node.cfg children)))).run with
      | .error e => .error e
      | .ok out => .ok (out.take size)] := by
  rw [← readRows_run, readStripe]
  show List.map Prod.snd (Id.run (match (wholeRows node.cfg children
    (readRows node children offset size).run).run with
    | .error e => _
    | .ok out => _)) = _
  cases (wholeRows node.cfg children (readRows node children offset size).run).run <;> rfl

theorem readStripe_answers {written : List (Map × List (List UInt8))}
    (h : Stripes io node offset size bytes written) :
    Answers ((readStripe node (childrenOf io node.children) offset size).run.map Prod.snd) bytes
      (node.reads = true) := by
  have hrows : (node.rowMaps offset size).map
      (asRead (pureReads node.cfg (childrenOf io node.children))) =
      written.map (fun w => asRead (pureReads node.cfg (childrenOf io node.children)) w.1) := by
    rw [← h.maps, List.map_map]
    rfl
  obtain ⟨hok, herror⟩ := wholeRows_run h.honest
  rw [readStripe_run, hrows]
  refine { only := fun b hb => ?_, some := fun hreads => ?_ }
  · by_cases hfew : FewLost (pureReads node.cfg (childrenOf io node.children)) written
    · rw [hok hfew] at hb
      rw [← h.whole]
      exact Except.ok.inj (List.mem_singleton.mp hb)
    · obtain ⟨e, he⟩ := herror hfew
      rw [he] at hb
      cases List.mem_singleton.mp hb
  · rw [hok (h.few hreads)]
    exact List.mem_singleton.mpr (congrArg Except.ok h.whole.symm)

end Striped

theorem readCandidatesOfAll_run (io : Io Id) (nodes : List Node) (offset size : Nat) :
    (readCandidatesOfAll io nodes offset size).run =
      nodes.flatMap (fun node => (readCandidates io node offset size).run) := by
  induction nodes with
  | nil => rfl
  | cons node nodes ih =>
    rw [List.flatMap_cons, ← ih]
    rfl

theorem draid_rows_ne (cfg : Draid.Config) (offset psize ashift : Nat) :
    cfg.map offset psize ashift ≠ [] := by
  obtain ⟨n, hmap⟩ := one_or_two_rows cfg offset psize ashift
  rw [hmap]
  split <;> exact List.cons_ne_nil _ _

/-- A leaf without a device cannot be read. -/
def Absent (io : Io Id) : Prop := ∀ offset size, ∃ e, io.readLeaf none offset size = .error e

theorem Contents.absent {ω : Type} (D : Contents) (r : Reader ω) : Absent (D.io r) :=
  fun _ _ => ⟨.noMember, rfl⟩

/-- What a vdev holds is what is read of it and, with enough of its devices, it is read. -/
theorem Good.delivers {node : Node} (h : Good node) {io : Io Id} (hio : Absent io) :
    Delivers io node := by
  induction h with
  | leaf =>
    intro offset size bytes hpos hsize hoffset hholds
    cases hholds with
    | striped written any maps => exact absurd (List.map_eq_nil_iff.mp maps) any
    | leaf gives =>
      rename_i device guid
      show Answers [io.readLeaf device offset size] bytes (device.isSome = true)
      cases device with
      | none =>
        obtain ⟨e, he⟩ := hio offset size
        rw [he]
        exact { only := fun b hb => (by cases List.mem_singleton.mp hb)
                some := fun hreads => (by cases hreads) }
      | some index =>
        rw [gives index rfl]
        exact { only := fun b hb => Except.ok.inj (List.mem_singleton.mp hb)
                some := fun _ => List.mem_singleton_self _ }
  | mirror children_good ih =>
    intro offset size bytes hpos hsize hoffset hholds
    cases hholds with
    | striped written any maps => exact absurd (List.map_eq_nil_iff.mp maps) any
    | mirror copies =>
      rename_i children
      rw [Node.reads_mirror, readCandidates, readCandidatesOfAll_run, List.map_flatMap]
      refine { only := fun b hb => ?_, some := fun hany => ?_ }
      · obtain ⟨child, hchild, hb⟩ := List.mem_flatMap.mp hb
        exact (ih child hchild hpos hsize hoffset (copies child hchild)).only b hb
      · obtain ⟨child, hchild, hreads⟩ := hany
        exact List.mem_flatMap.mpr ⟨child, hchild,
          (ih child hchild hpos hsize hoffset (copies child hchild)).some hreads⟩
  | raidz pos le lt wide ashift_le children_good ih =>
    intro offset size bytes hpos hsize hoffset hholds
    obtain ⟨written, hstripes⟩ := hholds.stripes (.raidz pos le lt wide ashift_le children_good)
      (List.cons_ne_nil _ _) ih hpos hsize hoffset
    exact readStripe_answers hstripes
  | draid wellFormed le length children_good ih =>
    intro offset size bytes hpos hsize hoffset hholds
    obtain ⟨written, hstripes⟩ := hholds.stripes (.draid wellFormed le length children_good)
      (draid_rows_ne _ _ _ _) ih hpos hsize hoffset
    exact readStripe_answers hstripes

/-! ## Verified reads of what is held -/

section Verified

variable (p : Pool) {io : Io Id} {dva : Ondisk.Dva} {bp : Ondisk.BlkPtr} {content : List UInt8}

/-- A read gives the block, or else it fails. -/
structure Obtains (result : Except ReadError (List UInt8 × Ondisk.Verify))
    (block : List UInt8 × Ondisk.Verify) (enough : Prop) : Prop where
  only : ∀ found, result = .ok found → found = block
  some : enough → result = .ok block

theorem readVerifiedLeaf_run (io : Io Id) (device : Option Nat) (dva : Ondisk.Dva)
    (bp : Ondisk.BlkPtr) (i : Nat) :
    (p.readVerifiedLeaf io device dva bp i).run.2 =
      match io.readLeaf device dva.offset bp.psize with
      | .error e => .error e
      | .ok raw => Pool.accept raw (p.verdict bp raw) := by
  rw [Pool.readVerifiedLeaf]
  show (Id.run (α := Pool.Tried) (match (io.readLeaf device dva.offset bp.psize).run with
    | .error e => _
    | .ok raw => _)).2 = _
  cases hread : io.readLeaf device dva.offset bp.psize with
  | error e => rfl
  | ok raw => exact congrArg (Pool.accept raw) (p.verify_run io bp raw)

theorem readVerifiedAny_run (io : Io Id) (dva : Ondisk.Dva) (bp : Ondisk.BlkPtr) (i : Nat)
    (last : ReadError) (node : Node) (nodes : List Node) :
    (p.readVerifiedAny io dva bp i last (node :: nodes)).run.2 =
      match (p.readVerified io dva bp i node).run.2 with
      | .ok found => .ok found
      | .error e => (p.readVerifiedAny io dva bp i (last.moreTelling e) nodes).run.2 := by
  rw [Pool.readVerifiedAny]
  simp only [Id.run_bind]
  cases (p.readVerified io dva bp i node).run with
  | mk attempts result => cases result <;> rfl

theorem readVerifiedLeaf_obtains (hio : Absent io) {device : Option Nat} (i : Nat)
    (hgives : ∀ index, device = some index → io.readLeaf device dva.offset bp.psize = .ok content)
    (hverdict : p.verdict bp content = .ok ∨ p.verdict bp content = .notChecked) :
    Obtains (p.readVerifiedLeaf io device dva bp i).run.2 (content, p.verdict bp content) (device.isSome = true) := by
  have haccept : Pool.accept content (p.verdict bp content) =
      .ok (content, p.verdict bp content) := by
    cases hverdict with
    | inl hok => rw [hok]; rfl
    | inr hnone => rw [hnone]; rfl
  rw [readVerifiedLeaf_run]
  cases device with
  | none =>
    obtain ⟨e, he⟩ := hio dva.offset bp.psize
    rw [he]
    exact { only := fun _ h => (by cases h), some := fun h => (by cases h) }
  | some index =>
    rw [hgives index rfl]
    dsimp only
    rw [haccept]
    exact { only := fun _ h => (Except.ok.inj h).symm, some := fun _ => rfl }

theorem readVerifiedAny_obtains (i : Nat) (last : ReadError) {nodes : List Node}
    (h : ∀ node ∈ nodes,
      Obtains (p.readVerified io dva bp i node).run.2 (content, p.verdict bp content) (node.reads = true)) :
    Obtains (p.readVerifiedAny io dva bp i last nodes).run.2 (content, p.verdict bp content)
      (∃ node ∈ nodes, node.reads = true) := by
  induction nodes generalizing last with
  | nil =>
    exact { only := fun _ h => (by cases h), some := fun ⟨_, h, _⟩ => (by cases h) }
  | cons node nodes ih =>
    have hnode := h node List.mem_cons_self
    have hnodes := fun last => ih last (fun n hn => h n (List.mem_cons_of_mem _ hn))
    rw [readVerifiedAny_run]
    cases hresult : (p.readVerified io dva bp i node).run.2 with
    | ok found =>
      rw [hnode.only found hresult]
      exact { only := fun _ h => (Except.ok.inj h).symm, some := fun _ => rfl }
    | error e =>
      refine { only := (hnodes _).only, some := fun ⟨n, hn, hreads⟩ => (hnodes _).some ?_ }
      cases List.mem_cons.mp hn with
      | inl heq =>
        subst heq
        rw [hnode.some hreads] at hresult
        cases hresult
      | inr hn => exact ⟨n, hn, hreads⟩

theorem readStriped_obtains {node : Node} {written : List (Map × List (List UInt8))}
    (h : Stripes io node dva.offset bp.psize content written) (i : Nat)
    (hverdict : p.verdict bp content = .ok ∨ p.verdict bp content = .notChecked) :
    Obtains (p.readStriped io node dva bp i).run.2 (content, p.verdict bp content) (node.reads = true) := by
  have hmatch : p.verdict bp content ≠ .mismatch := by
    cases hverdict with
    | inl hok => simp [hok]
    | inr hnone => simp [hnone]
  obtain ⟨hok, herror⟩ := readStriped_honest p io i h.maps h.whole h.honest hmatch
  refine { only := fun found hfound => ?_, some := fun hreads => hok (h.few hreads) }
  by_cases hfew : FewLost (pureReads node.cfg (childrenOf io node.children)) written
  · rw [hok hfew] at hfound
    exact (Except.ok.inj hfound).symm
  · obtain ⟨e, he⟩ := herror hfew
    rw [he] at hfound
    cases hfound

/-- A block that the devices under a vdev hold is read from it, if enough of them are there. -/
theorem Good.obtains {node : Node} (h : Good node) (hio : Absent io) (i : Nat)
    (hpos : 0 < bp.psize) (hsize : bp.psize ≤ 2 ^ 32) (hoffset : dva.offset < word)
    (hholds : Holds io node dva.offset bp.psize content) (hverdict : p.verdict bp content = .ok ∨ p.verdict bp content = .notChecked) :
    Obtains (p.readVerified io dva bp i node).run.2 (content, p.verdict bp content) (node.reads = true) := by
  induction h with
  | leaf =>
    cases hholds with
    | striped written any maps => exact absurd (List.map_eq_nil_iff.mp maps) any
    | leaf gives => exact readVerifiedLeaf_obtains p hio i gives hverdict
  | mirror children_good ih =>
    cases hholds with
    | striped written any maps => exact absurd (List.map_eq_nil_iff.mp maps) any
    | mirror copies =>
      rw [Node.reads_mirror, Pool.readVerified]
      exact readVerifiedAny_obtains p i _ (fun child hchild => ih child hchild (copies child hchild))
  | raidz pos le lt wide ashift_le children_good _ =>
    obtain ⟨written, hstripes⟩ := hholds.stripes (.raidz pos le lt wide ashift_le children_good)
      (List.cons_ne_nil _ _) (fun child hchild => (children_good child hchild).delivers hio) hpos
      hsize hoffset
    exact readStriped_obtains p hstripes i hverdict
  | draid wellFormed le length children_good _ =>
    obtain ⟨written, hstripes⟩ := hholds.stripes (.draid wellFormed le length children_good)
      (draid_rows_ne _ _ _ _) (fun child hchild => (children_good child hchild).delivers hio) hpos
      hsize hoffset
    exact readStriped_obtains p hstripes i hverdict

end Verified

end Zio
end ZvolRescue
