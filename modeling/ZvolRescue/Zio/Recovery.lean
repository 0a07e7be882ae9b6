import ZvolRescue.Raidz.RoundTrip
import ZvolRescue.Zio.Soundness

/-!
# What a striped read recovers

A row that was written with its parity and has at most as many bad columns as parity
columns comes back whole: columns that fail are rebuilt at once, and columns that silently
give other bytes are found by the search, in one row of the block (`readStriped_recovers`).
-/

namespace ZvolRescue
namespace Zio

open Lib Raidz

/-! ## A row as written and as it reads -/

/-- What the columns of a row give when they are read. -/
abbrev ColumnReads := Column → Except ReadError (List UInt8)

/-- The columns that do not give the bytes they were written with. -/
def badColumns (read : ColumnReads) (cols : List Column) (bytes : List (List UInt8)) : List Nat :=
  (List.range cols.length).filter (fun i => (cols[i]?).map read ≠ (bytes[i]?).map .ok)

def badData (read : ColumnReads) (m : Map) (orig : List (List UInt8)) : List Nat :=
  badColumns read m.data orig

def badParity (read : ColumnReads) (m : Map) (orig : List (List UInt8)) : List Nat :=
  badColumns read m.parity (generateParity orig m.nparity)

/-- A row written with data columns `orig` and their parity, at most `nparity` of whose
columns are bad: missing, failing, or giving other bytes of the right length. -/
structure Damaged (read : ColumnReads) (m : Map) (orig : List (List UInt8)) : Prop where
  fits : orig.map List.length = m.data.map Column.size
  sized : ∀ c ∈ m.data, ∀ b, read c = .ok b → b.length = c.size
  few : (badParity read m orig).length + (badData read m orig).length ≤ m.nparity

/-- Every bad column fails; none gives other bytes. -/
structure FailsOnly (read : ColumnReads) (m : Map) (orig : List (List UInt8)) : Prop where
  data : ∀ i ∈ badData read m orig, ∀ c, m.data[i]? = some c → ∃ e, read c = .error e
  parity : ∀ i ∈ badParity read m orig, ∀ c, m.parity[i]? = some c → ∃ e, read c = .error e

/-- One to three parity columns, and at most 255 data columns. -/
structure Narrow (m : Map) : Prop where
  nparity_le : m.nparity ≤ 3
  parity_length : m.parity.length = m.nparity
  data_length : m.data.length ≤ 255

/-- The parity columns that read. -/
def parityReads (read : ColumnReads) (m : Map) : List (Option (List UInt8)) :=
  (List.range m.nparity).map (fun i => (m.parity[i]?).bind (fun c => (read c).toOption))

section Row

variable {read : ColumnReads} {m : Map} {orig : List (List UInt8)}

theorem Damaged.length_eq (h : Damaged read m orig) : orig.length = m.data.length := by
  have hlen := congrArg List.length h.fits
  rwa [List.length_map, List.length_map] at hlen

theorem mem_badColumns {cols : List Column} {bytes : List (List UInt8)} {i : Nat} :
    i ∈ badColumns read cols bytes ↔
      i < cols.length ∧ (cols[i]?).map read ≠ (bytes[i]?).map .ok := by
  unfold badColumns
  rw [List.mem_filter, List.mem_range, decide_eq_true_eq]

theorem badColumns_nodup (cols : List Column) (bytes : List (List UInt8)) :
    (badColumns read cols bytes).Nodup := List.nodup_range.filter _

/-- A column of the row that is not bad reads as it was written. -/
theorem read_of_not_bad {cols : List Column} {bytes : List (List UInt8)} {i : Nat} {c : Column}
    (hc : cols[i]? = some c) (hi : i ∉ badColumns read cols bytes) :
    ∃ b, bytes[i]? = some b ∧ read c = .ok b := by
  have hlt : i < cols.length := (List.getElem?_eq_some_iff.mp hc).1
  rw [mem_badColumns] at hi
  have heq : (cols[i]?).map read = (bytes[i]?).map .ok := by
    by_contra hne
    exact hi ⟨hlt, hne⟩
  rw [hc] at heq
  cases hb : bytes[i]? with
  | none => rw [hb] at heq; cases heq
  | some b =>
    rw [hb] at heq
    exact ⟨b, rfl, Option.some.inj heq⟩

/-! ## The data columns -/

/-- The row as its data columns read. -/
def asRead (read : ColumnReads) (m : Map) : Columns := Columns.ofReads m (m.data.map read)

theorem mem_lost {i : Nat} :
    i ∈ (asRead read m).lost ↔ ∃ c e, m.data[i]? = some c ∧ read c = .error e := by
  unfold asRead Columns.ofReads
  rw [List.mem_filter, List.mem_range, List.length_map, List.getElem?_map]
  constructor
  · intro h
    obtain ⟨hlt, herr⟩ := h
    rw [List.getElem?_eq_getElem hlt] at herr ⊢
    simp only [Option.map_some] at herr
    cases hr : read m.data[i] with
    | ok b => rw [hr] at herr; cases herr
    | error e => exact ⟨_, e, rfl, hr⟩
  · intro h
    obtain ⟨c, e, hc, he⟩ := h
    rw [hc]
    simp only [Option.map_some, he]
    exact ⟨(List.getElem?_eq_some_iff.mp hc).1, True.intro⟩

theorem lost_nodup : (asRead read m).lost.Nodup := List.nodup_range.filter _

theorem lost_lt {i : Nat} (h : i ∈ (asRead read m).lost) : i < m.data.length := by
  obtain ⟨c, e, hc, -⟩ := mem_lost.mp h
  exact (List.getElem?_eq_some_iff.mp hc).1

theorem asRead_data_getElem? (i : Nat) :
    (asRead read m).data[i]? = (m.data[i]?).map (fun c =>
      match read c with
      | .ok b => b
      | .error _ => List.replicate c.size 0) := by
  show (List.zipWith _ m.data (m.data.map read))[i]? = _
  rw [List.getElem?_zipWith, List.getElem?_map]
  cases m.data[i]? with
  | none => rfl
  | some c => rfl

theorem asRead_data_length : (asRead read m).data.length = m.data.length := by
  show (List.zipWith _ m.data (m.data.map read)).length = _
  rw [List.length_zipWith, List.length_map, Nat.min_self]

/-- The columns are as long as they were written, read or not. -/
theorem Damaged.lengths (h : Damaged read m orig) :
    (asRead read m).data.map List.length = orig.map List.length := by
  rw [h.fits]
  apply List.ext_getElem?
  intro i
  rw [List.getElem?_map, asRead_data_getElem?, List.getElem?_map]
  cases hc : m.data[i]? with
  | none => rfl
  | some c =>
    cases hr : read c with
    | ok b => simp [hr, h.sized c (List.mem_of_getElem? hc) b hr]
    | error e => simp [hr]

/-- A failing column is bad. -/
theorem badData_of_lost {i : Nat} (h : i ∈ (asRead read m).lost) : i ∈ badData read m orig := by
  obtain ⟨c, e, hc, he⟩ := mem_lost.mp h
  apply mem_badColumns.mpr
  refine ⟨(List.getElem?_eq_some_iff.mp hc).1, ?_⟩
  rw [hc, Option.map_some, he]
  cases orig[i]? with
  | none => simp
  | some b => simp

/-- A column that is not bad holds its bytes. -/
theorem Damaged.kept (h : Damaged read m orig) {i : Nat} (hi : i ∉ badData read m orig) :
    column (asRead read m).data i = column orig i := by
  unfold column
  rw [List.getD_eq_getElem?_getD, List.getD_eq_getElem?_getD, asRead_data_getElem?]
  cases hc : m.data[i]? with
  | none =>
    have hlen := List.getElem?_eq_none_iff.mp hc
    rw [List.getElem?_eq_none (by rw [h.length_eq]; exact hlen)]
    rfl
  | some c =>
    obtain ⟨b, hb, hr⟩ := read_of_not_bad hc hi
    rw [hb]
    simp [hr]

/-! ## The parity columns -/

theorem parityReads_length : (parityReads read m).length = m.nparity := by
  unfold parityReads
  rw [List.length_map, List.length_range]

theorem parityReads_getD (i : Nat) (hi : i < m.nparity) :
    (parityReads read m).getD i none = (m.parity[i]?).bind (fun c => (read c).toOption) := by
  rw [parityReads, List.getD_eq_getElem?_getD, List.getElem?_map, List.getElem?_range hi]
  rfl

/-- Parity that reads and is not bad is the parity of the row. -/
theorem parityReads_good {i : Nat} {b : List UInt8}
    (hb : (parityReads read m).getD i none = some b) (hi : i ∉ badParity read m orig) :
    b = column (generateParity orig m.nparity) i := by
  have hlt : i < m.nparity := by
    by_contra hge
    rw [List.getD_eq_default _ _ (by rw [parityReads_length]; omega)] at hb
    cases hb
  rw [parityReads_getD i hlt] at hb
  cases hc : m.parity[i]? with
  | none => rw [hc] at hb; cases hb
  | some c =>
    obtain ⟨b', hb', hr⟩ := read_of_not_bad hc hi
    rw [hc, Option.bind_some, hr] at hb
    unfold column
    rw [List.getD_eq_getElem?_getD, hb']
    cases hb
    rfl

/-- Parity that is not bad reads. -/
theorem Narrow.parity_reads (h : Narrow m) {i : Nat} (hi : i < m.nparity)
    (hbad : i ∉ badParity read m orig) : ((parityReads read m).getD i none).isSome := by
  rw [parityReads_getD i hi]
  have hlt : i < m.parity.length := by
    rw [h.parity_length]
    exact hi
  have hc : m.parity[i]? = some m.parity[i] := List.getElem?_eq_getElem hlt
  obtain ⟨b, -, hr⟩ := read_of_not_bad hc hbad
  rw [hc, Option.bind_some, hr]
  rfl

/-! ## Counting columns -/

theorem length_filter_isSome (l : List (Option (List UInt8))) :
    (l.filter Option.isSome).length = (survivingRows l).length := by
  unfold survivingRows
  have hl : l = (List.range l.length).map (fun r => l.getD r none) := by
    apply List.ext_getElem?
    intro i
    rw [List.getElem?_map]
    by_cases hi : i < l.length
    · rw [List.getElem?_range hi, List.getElem?_eq_getElem hi, Option.map_some,
        List.getD_eq_getElem _ _ hi]
    · rw [List.getElem?_eq_none (by omega), List.getElem?_eq_none (by simp; omega)]
      rfl
  conv_lhs => rw [hl, List.filter_map, List.length_map]
  rfl

theorem length_eq_of_mem_iff {a b : List Nat} (ha : a.Nodup) (hb : b.Nodup)
    (h : ∀ i, i ∈ a ↔ i ∈ b) : a.length = b.length :=
  ((List.perm_ext_iff_of_nodup ha hb).mpr h).length_eq

/-- The parity columns that are not bad. -/
def goodParity (read : ColumnReads) (m : Map) (orig : List (List UInt8)) : List Nat :=
  (List.range m.nparity).filter (fun i => i ∉ badParity read m orig)

theorem Narrow.goodParity_length (h : Narrow m) (read : ColumnReads)
    (orig : List (List UInt8)) :
    (goodParity read m orig).length + (badParity read m orig).length = m.nparity := by
  have hbad : badParity read m orig =
      (List.range m.nparity).filter (fun i => i ∈ badParity read m orig) := by
    conv_lhs => unfold badParity badColumns
    rw [h.parity_length]
    apply List.filter_congr
    intro i hi
    have hmem : i ∈ badParity read m orig ↔
        (m.parity[i]?).map read ≠ ((generateParity orig m.nparity)[i]?).map .ok := by
      unfold badParity
      rw [mem_badColumns, h.parity_length]
      exact ⟨fun hb => hb.2, fun hb => ⟨List.mem_range.mp hi, hb⟩⟩
    exact decide_eq_decide.mpr hmem.symm
  have hsum := List.length_eq_length_filter_add (l := List.range m.nparity)
    (fun i => decide (i ∈ badParity read m orig))
  rw [List.length_range, ← hbad] at hsum
  unfold goodParity
  simp only [decide_not]
  omega

/-- The parity columns that give other bytes than they were written with. -/
def silentParity (read : ColumnReads) (m : Map) (orig : List (List UInt8)) : List Nat :=
  (survivingRows (parityReads read m)).filter (fun i => i ∈ badParity read m orig)

/-- The data columns that give other bytes than they were written with. -/
def silentData (read : ColumnReads) (m : Map) (orig : List (List UInt8)) : List Nat :=
  ((List.range m.data.length).filter (fun i => i ∉ (asRead read m).lost)).filter
    (fun i => i ∈ badData read m orig)

theorem Narrow.mem_goodParity (h : Narrow m) {i : Nat} :
    i ∈ goodParity read m orig ↔
      i ∈ survivingRows (parityReads read m) ∧ i ∉ badParity read m orig := by
  unfold goodParity
  rw [List.mem_filter, List.mem_range, decide_eq_true_eq, mem_survivingRows]
  constructor
  · intro hi
    exact ⟨h.parity_reads hi.1 hi.2, hi.2⟩
  · intro hi
    refine ⟨?_, hi.2⟩
    by_contra hge
    rw [List.getD_eq_default _ _ (by rw [parityReads_length]; omega)] at hi
    simp at hi

/-- The parity columns that read: the good ones and the silent ones. -/
theorem Narrow.available (h : Narrow m) (read : ColumnReads)
    (orig : List (List UInt8)) :
    (survivingRows (parityReads read m)).length =
      (silentParity read m orig).length + (goodParity read m orig).length := by
  have hsum := List.length_eq_length_filter_add (l := survivingRows (parityReads read m))
    (fun i => decide (i ∈ badParity read m orig))
  have hgood : ((survivingRows (parityReads read m)).filter
      (fun i => !decide (i ∈ badParity read m orig))).length = (goodParity read m orig).length := by
    apply length_eq_of_mem_iff
    · exact (List.nodup_range.filter _).filter _
    · exact List.nodup_range.filter _
    · intro i
      rw [h.mem_goodParity, List.mem_filter]
      simp
  rw [hgood] at hsum
  exact hsum

theorem mem_silentData {i : Nat} :
    i ∈ silentData read m orig ↔ i ∈ badData read m orig ∧ i ∉ (asRead read m).lost := by
  unfold silentData
  rw [List.mem_filter, List.mem_filter, List.mem_range, decide_eq_true_eq, decide_eq_true_eq]
  constructor
  · intro h
    exact ⟨h.2, h.1.2⟩
  · intro h
    exact ⟨⟨(mem_badColumns.mp h.1).1, h.2⟩, h.1⟩

/-- The bad data columns: the lost ones and the silent ones. -/
theorem badData_perm (orig : List (List UInt8)) :
    ((asRead read m).lost ++ silentData read m orig).Perm (badData read m orig) := by
  apply (List.perm_ext_iff_of_nodup _ (badColumns_nodup _ _)).mpr
  · intro i
    rw [List.mem_append, mem_silentData]
    constructor
    · intro h
      cases h with
      | inl h => exact badData_of_lost h
      | inr h => exact h.1
    · intro h
      by_cases hl : i ∈ (asRead read m).lost
      · exact Or.inl hl
      · exact Or.inr ⟨h, hl⟩
  · apply List.nodup_append.mpr
    refine ⟨lost_nodup, (List.nodup_range.filter _).filter _, ?_⟩
    intro a ha b hb hab
    rw [← hab] at hb
    exact (mem_silentData.mp hb).2 ha

/-! ## The trial that finds the damage -/

/-- Whether a readable column gives other bytes than it was written with. -/
def isSilent (read : ColumnReads) (m : Map) (orig : List (List UInt8)) (c : Bool × Nat) : Bool :=
  if c.1 then decide (c.2 ∈ badParity read m orig) else decide (c.2 ∈ badData read m orig)

theorem readable_filter (orig : List (List UInt8)) {row : Columns} (hlost : row.lost = (asRead read m).lost)
    (hparity : row.parity = parityReads read m) (hdata : row.data.length = m.data.length) :
    (Pool.readable row).filter (isSilent read m orig) =
      (silentParity read m orig).map (fun i => (true, i)) ++
        (silentData read m orig).map (fun i => (false, i)) := by
  unfold Pool.readable
  rw [List.filter_append, List.filter_map, List.filter_map, hparity, hlost, hdata]
  rfl

theorem distrust_getD (parity : List (Option (List UInt8))) (bad : List Nat) (r : Nat) :
    (Pool.distrust parity bad).getD r none = if r ∈ bad then none else parity.getD r none := by
  unfold Pool.distrust
  rw [List.getD_eq_getElem?_getD, List.getElem?_map, List.getElem?_zipIdx,
    List.getD_eq_getElem?_getD]
  cases parity[r]? with
  | none => simp
  | some b =>
    simp only [Option.map_some, Option.getD_some, Nat.zero_add]

theorem distrust_length (parity : List (Option (List UInt8))) (bad : List Nat) :
    (Pool.distrust parity bad).length = parity.length := by
  unfold Pool.distrust
  rw [List.length_map, List.length_zipIdx]

/-- What is left once the silent parity columns are distrusted: the good ones. -/
theorem Narrow.survivingRows_distrust (h : Narrow m) (read : ColumnReads)
    (orig : List (List UInt8)) :
    (survivingRows (Pool.distrust (parityReads read m) (silentParity read m orig))).length =
      (goodParity read m orig).length := by
  apply length_eq_of_mem_iff
  · exact List.nodup_range.filter _
  · exact List.nodup_range.filter _
  · intro i
    have hsilent : i ∈ silentParity read m orig ↔
        i ∈ survivingRows (parityReads read m) ∧ i ∈ badParity read m orig := by
      unfold silentParity
      rw [List.mem_filter, decide_eq_true_eq]
    rw [h.mem_goodParity, mem_survivingRows, distrust_getD, mem_survivingRows]
    by_cases hi : i ∈ silentParity read m orig
    · rw [if_pos hi]
      have hbad := (hsilent.mp hi).2
      simp [hbad]
    · rw [if_neg hi]
      constructor
      · intro hread
        exact ⟨hread, fun hbad => hi (hsilent.mpr ⟨mem_survivingRows.mpr hread, hbad⟩)⟩
      · intro hgood
        exact hgood.1

theorem Damaged.exists_trial (h : Damaged read m orig) (hn : Narrow m) {row : Columns}
    (hlost : row.lost = (asRead read m).lost) (hparity : row.parity = parityReads read m)
    (hlen : row.data.map List.length = orig.map List.length)
    (hkept : ∀ i, i ∉ badData read m orig → column row.data i = column orig i)
    (hsilent : 0 < (silentParity read m orig).length + (silentData read m orig).length)
    (hneeds : badData read m orig ≠ []) :
    ∃ t ∈ Pool.trials row, Raidz.reconstruct row.data t.usable t.missing = .ok orig := by
  have hdata : row.data.length = m.data.length := by
    have hl := congrArg List.length hlen
    rw [List.length_map, List.length_map] at hl
    rw [hl, h.length_eq]
  have hfilter := readable_filter orig hlost hparity hdata
  obtain ⟨combo, hcombo, hchosen⟩ := exists_choose_filter (isSilent read m orig) (Pool.readable row)
  rw [hfilter] at hcombo hchosen
  rw [List.length_append, List.length_map, List.length_map] at hcombo
  have hused : (Pool.Trial.ofCombo row (Pool.readable row) combo).usable =
      Pool.distrust (parityReads read m) (silentParity read m orig) := by
    unfold Pool.Trial.ofCombo
    simp only [hchosen, hparity]
    simp [List.filter_append, List.filter_map, Function.comp_def]
  have hmissing : (Pool.Trial.ofCombo row (Pool.readable row) combo).missing =
      ((asRead read m).lost ++ silentData read m orig).insertionSort (· ≤ ·) := by
    unfold Pool.Trial.ofCombo
    simp only [hchosen, hlost]
    simp [List.filter_append, List.filter_map, Function.comp_def]
  have hperm := (List.perm_insertionSort (· ≤ ·)
    ((asRead read m).lost ++ silentData read m orig)).trans (badData_perm orig)
  rw [← hmissing] at hperm
  have hcount : (Pool.Trial.ofCombo row (Pool.readable row) combo).missing.length =
      (badData read m orig).length := hperm.length_eq
  have hlost_silent : (asRead read m).lost.length + (silentData read m orig).length =
      (badData read m orig).length := by
    rw [← List.length_append]
    exact (badData_perm orig).length_eq
  have hgood := hn.goodParity_length read orig
  have havail := hn.available read orig
  have hfew := h.few
  have hrows := hn.survivingRows_distrust read orig
  refine ⟨Pool.Trial.ofCombo row (Pool.readable row) combo, ?_, ?_⟩
  · unfold Pool.trials
    rw [List.mem_filter, List.mem_flatMap]
    constructor
    · refine ⟨(silentParity read m orig).length + (silentData read m orig).length - 1, ?_, ?_⟩
      · rw [List.mem_range]
        have hle : (silentParity read m orig).length + (silentData read m orig).length ≤
            (Pool.readable row).length := by
          have hsub := List.length_filter_le (isSilent read m orig) (Pool.readable row)
          rw [hfilter, List.length_append, List.length_map, List.length_map] at hsub
          exact hsub
        have hav : row.available = (survivingRows (parityReads read m)).length := by
          unfold Columns.available
          rw [hparity, length_filter_isSome]
        rw [hav, hlost]
        omega
      · rw [List.mem_map]
        refine ⟨combo, ?_, rfl⟩
        rw [Nat.sub_add_cancel hsilent]
        exact hcombo
    · rw [decide_eq_true_eq]
      constructor
      · intro hnil
        rw [hnil, List.length_nil] at hcount
        exact hneeds (List.length_eq_zero_iff.mp hcount.symm)
      · rw [hused, length_filter_isSome, hcount, hrows]
        omega
  · rw [hused]
    apply reconstruct_eq_ok
    · apply ParityOf.generateParity hn.nparity_le
      · rw [distrust_length, parityReads_length]
      · intro r col hcol
        rw [distrust_getD] at hcol
        by_cases hr : r ∈ silentParity read m orig
        · rw [if_pos hr] at hcol
          cases hcol
        · rw [if_neg hr] at hcol
          apply parityReads_good hcol
          intro hbad
          apply hr
          unfold silentParity
          rw [List.mem_filter, decide_eq_true_eq, mem_survivingRows, hcol]
          exact ⟨rfl, hbad⟩
    · rw [h.length_eq]
      exact hn.data_length
    · exact (hperm.nodup_iff).mpr (badColumns_nodup _ _)
    · intro i hi
      rw [h.length_eq]
      exact (mem_badColumns.mp (hperm.mem_iff.mp hi)).1
    · exact hlen
    · intro i hi
      exact hkept i (fun hbad => hi (hperm.mem_iff.mpr hbad))
    · rw [hcount, hrows]
      omega

/-! ## The direct read of a row -/

/-- A row once its lost columns are rebuilt, as far as the parity allowed. -/
structure Direct (read : ColumnReads) (m : Map) (orig : List (List UInt8)) (row : Columns) :
    Prop where
  map : row.map = m
  lost : row.lost = (asRead read m).lost
  parity : row.parity = List.replicate m.nparity none ∨ row.parity = parityReads read m
  lengths : row.data.map List.length = orig.map List.length
  kept : ∀ i, i ∉ badData read m orig → column row.data i = column orig i
  honest : FailsOnly read m orig → row.data = orig

/-- Columns that agree are the same. -/
theorem eq_of_column {data : List (List UInt8)}
    (hlen : data.map List.length = orig.map List.length)
    (hkept : ∀ i, column data i = column orig i) : data = orig := by
  apply eq_of_byteAt hlen
  intro i pos _
  rw [hkept i]

/-- Where columns only fail, the bad ones are the lost ones. -/
theorem FailsOnly.badData_eq (h : FailsOnly read m orig) {i : Nat} :
    i ∈ badData read m orig ↔ i ∈ (asRead read m).lost := by
  constructor
  · intro hi
    have hlt := (mem_badColumns.mp hi).1
    obtain ⟨e, he⟩ := h.data i hi _ (List.getElem?_eq_getElem hlt)
    exact mem_lost.mpr ⟨_, e, List.getElem?_eq_getElem hlt, he⟩
  · exact badData_of_lost

/-- Where columns only fail, parity that reads is good. -/
theorem FailsOnly.parity_good (h : FailsOnly read m orig) {i : Nat} {b : List UInt8}
    (hb : (parityReads read m).getD i none = some b) : i ∉ badParity read m orig := by
  intro hbad
  have hlt := (mem_badColumns.mp hbad).1
  obtain ⟨e, he⟩ := h.parity i hbad _ (List.getElem?_eq_getElem hlt)
  have hi : i < m.nparity := by
    by_contra hge
    rw [List.getD_eq_default _ _ (by rw [parityReads_length]; omega)] at hb
    cases hb
  rw [parityReads_getD i hi, List.getElem?_eq_getElem hlt, Option.bind_some, he] at hb
  cases hb

/-- Unless columns only fail, some column gives other bytes. -/
theorem Narrow.silent_pos (hn : Narrow m) (h : ¬ FailsOnly read m orig) :
    0 < (silentParity read m orig).length + (silentData read m orig).length := by
  by_contra hzero
  have hparity : silentParity read m orig = [] := List.length_eq_zero_iff.mp (by omega)
  have hdata : silentData read m orig = [] := List.length_eq_zero_iff.mp (by omega)
  apply h
  constructor
  · intro i hi c hc
    have hlost : i ∈ (asRead read m).lost := by
      by_contra hl
      have hmem : i ∈ silentData read m orig := mem_silentData.mpr ⟨hi, hl⟩
      rw [hdata] at hmem
      cases hmem
    obtain ⟨c', e, hc', he⟩ := mem_lost.mp hlost
    rw [hc] at hc'
    cases hc'
    exact ⟨e, he⟩
  · intro i hi c hc
    cases hr : read c with
    | error e => exact ⟨e, rfl⟩
    | ok b =>
      exfalso
      have hlt : i < m.nparity := by
        rw [← hn.parity_length]
        exact (mem_badColumns.mp hi).1
      have hmem : i ∈ silentParity read m orig := by
        unfold silentParity
        rw [List.mem_filter, decide_eq_true_eq, mem_survivingRows, parityReads_getD i hlt, hc,
          Option.bind_some, hr]
        exact ⟨rfl, hi⟩
      rw [hparity] at hmem
      cases hmem

theorem Damaged.enough (h : Damaged read m orig) (hn : Narrow m) :
    (asRead read m).lost.length ≤ (survivingRows (parityReads read m)).length := by
  have hlost : ((asRead read m).lost ++ silentData read m orig).length =
      (badData read m orig).length := (badData_perm orig).length_eq
  rw [List.length_append] at hlost
  have hgood := hn.goodParity_length read orig
  have havail := hn.available read orig
  have hfew := h.few
  omega

theorem Damaged.direct_whole (h : Damaged read m orig) (hlost : (asRead read m).lost = []) :
    Direct read m orig (asRead read m) where
  map := rfl
  lost := rfl
  parity := Or.inl rfl
  lengths := h.lengths
  kept := fun i hi => h.kept hi
  honest := by
    intro hf
    apply eq_of_column h.lengths
    intro i
    apply h.kept
    rw [hf.badData_eq, hlost]
    exact List.not_mem_nil

theorem Damaged.direct_rebuilt (h : Damaged read m orig) (hn : Narrow m) :
    ∃ data, Raidz.reconstruct (asRead read m).data (parityReads read m) (asRead read m).lost =
        .ok data ∧
      Direct read m orig { asRead read m with parity := parityReads read m, data := data } := by
  have hlen : (asRead read m).data.length = orig.length := by
    rw [asRead_data_length, h.length_eq]
  have hlt : ∀ i ∈ (asRead read m).lost, i < orig.length := by
    intro i hi
    rw [h.length_eq]
    exact lost_lt hi
  have hle : orig.length ≤ 255 := by
    rw [h.length_eq]
    exact hn.data_length
  have hrows : ∀ r ∈ survivingRows (parityReads read m), r ≤ 2 := by
    intro r hr
    rw [mem_survivingRows] at hr
    have hnparity := hn.nparity_le
    by_contra hge
    rw [List.getD_eq_default _ _ (by rw [parityReads_length]; omega)] at hr
    cases hr
  have hle' : (asRead read m).data.length ≤ 255 := by omega
  have hlt' : ∀ i ∈ (asRead read m).lost, i < (asRead read m).data.length := by
    rw [hlen]
    exact hlt
  obtain ⟨data, hok, hlengths, hkept⟩ :=
    reconstruct_keeps hrows hle' lost_nodup hlt' (h.enough hn)
  refine ⟨data, hok, ?_⟩
  exact
    { map := rfl
      lost := rfl
      parity := Or.inr rfl
      lengths := hlengths.trans h.lengths
      kept := by
        intro i hi
        show column data i = _
        rw [hkept i (fun hl => hi (badData_of_lost hl)), h.kept hi]
      honest := by
        intro hf
        have hparity : ParityOf orig (parityReads read m) := by
          apply ParityOf.generateParity hn.nparity_le parityReads_length
          intro r col hcol
          exact parityReads_good hcol (hf.parity_good hcol)
        have horig := reconstruct_eq_ok hparity hle lost_nodup hlt h.lengths
          (fun i hi => h.kept (fun hb => hi (hf.badData_eq.mp hb))) (h.enough hn)
        rw [hok] at horig
        exact Except.ok.inj horig }

/-- The row with its parity, if a column is lost. -/
def withParityIfLost (read : ColumnReads) (m : Map) : Columns :=
  if (asRead read m).lost = [] then asRead read m
  else { asRead read m with parity := parityReads read m }

theorem withParityIfLost_lost : (withParityIfLost read m).lost = (asRead read m).lost := by
  rw [withParityIfLost]
  split <;> rfl

/-- A row that lost a column is solved for it. -/
theorem withParityIfLost_rebuilt (hlost : (asRead read m).lost ≠ []) :
    (withParityIfLost read m).rebuilt =
      match Raidz.reconstruct (asRead read m).data (parityReads read m) (asRead read m).lost with
      | .ok data => .ok data
      | .error e => .error (.unrecoverable (reconstructText e)) := by
  rw [withParityIfLost, if_neg hlost, Columns.rebuilt]
  exact if_neg hlost

end Row

/-! ## The rows of a block -/

section Block

variable {cfg : Option Draid.Config} {children : List (Child Id)}

/-- The column reads over children without state. -/
def pureReads (cfg : Option Draid.Config) (children : List (Child Id)) : ColumnReads :=
  fun c => (readColumn cfg children c).run

theorem readRow_run (m : Map) :
    (readRow cfg children m).run = asRead (pureReads cfg children) m := by
  show Columns.ofReads m (m.data.mapM (readColumn cfg children)).run = _
  rw [List.idRun_mapM]
  rfl

theorem readParity_run {row : Columns}
    (h : row.parity = List.replicate row.map.nparity none ∨
      row.parity = parityReads (pureReads cfg children) row.map) :
    (readParity cfg children row).run =
      { row with parity := parityReads (pureReads cfg children) row.map } := by
  have hlen : row.parity.length = row.map.nparity := by
    cases h with
    | inl h => rw [h, List.length_replicate]
    | inr h => rw [h, parityReads_length]
  rw [readParity]
  simp only [Id.run_bind]
  rw [List.idRun_mapM]
  refine congrArg (fun parity => ({ row with parity := parity } : Columns)) ?_
  apply List.ext_getElem?
  intro i
  rw [List.getElem?_map, List.getElem?_zipIdx]
  unfold parityReads
  rw [List.getElem?_map]
  by_cases hi : i < row.map.nparity
  · rw [List.getElem?_range hi, Option.map_some]
    cases h with
    | inl h =>
      rw [h, List.getElem?_replicate, if_pos hi, Option.map_some, Option.map_some, Nat.zero_add]
      cases row.map.parity[i]? with
      | none => rfl
      | some c => rfl
    | inr h =>
      have hget : row.parity[i]? = some ((row.map.parity[i]?).bind
          (fun c => (pureReads cfg children c).toOption)) := by
        rw [h, parityReads, List.getElem?_map, List.getElem?_range hi]
        rfl
      rw [hget, Option.map_some, Option.map_some, Nat.zero_add]
      cases row.map.parity[i]? with
      | none => rfl
      | some c =>
        rw [Option.bind_some]
        cases hr : (pureReads cfg children c).toOption with
        | some b => rfl
        | none =>
          show some (pureReads cfg children c).toOption = _
          rw [hr]
  · rw [List.getElem?_eq_none (by rw [hlen]; omega), List.getElem?_eq_none (by simp; omega)]
    rfl

theorem readParityIfLost_run (m : Map) :
    (readParityIfLost cfg children (asRead (pureReads cfg children) m)).run =
      withParityIfLost (pureReads cfg children) m := by
  rw [readParityIfLost, withParityIfLost]
  by_cases hlost : (asRead (pureReads cfg children) m).lost = []
  · rw [if_pos hlost, if_pos hlost]
    rfl
  · rw [if_neg hlost, if_neg hlost]
    exact readParity_run (Or.inl rfl)

theorem readRows_run (node : Node) (offset size : Nat) :
    (readRows node children offset size).run =
      (node.rowMaps offset size).map (asRead (pureReads node.cfg children)) := by
  rw [readRows, List.idRun_mapM]
  exact List.map_congr_left (fun m _ => readRow_run m)

def lostText (row : Columns) : String :=
  s!"{row.lost.length} data column(s) missing, only {row.available} parity column(s) readable"

theorem rebuildRows_step (m : Map) (rows : List Columns) :
    (Pool.rebuildRows cfg children (asRead (pureReads cfg children) m :: rows)).run =
      let row := withParityIfLost (pureReads cfg children) m
      if row.lost.length > row.available then
        .error (true, .unrecoverable (lostText row))
      else match row.rebuilt with
        | .error e => .error (false, e)
        | .ok data =>
          match (Pool.rebuildRows cfg children rows).run with
          | .error e => .error e
          | .ok rest => .ok ({ row with data := data } :: rest) := by
  rw [Pool.rebuildRows, ← readParityIfLost_run]
  dsimp only
  show Id.run (if (readParityIfLost cfg children (asRead (pureReads cfg children) m)).run.lost.length >
      (readParityIfLost cfg children (asRead (pureReads cfg children) m)).run.available then _
    else match (readParityIfLost cfg children (asRead (pureReads cfg children) m)).run.rebuilt with
      | .error e => _
      | .ok data => _) = _
  split
  · rfl
  · cases (readParityIfLost cfg children (asRead (pureReads cfg children) m)).run.rebuilt with
    | error e => rfl
    | ok data =>
      show Id.run (match (Pool.rebuildRows cfg children rows).run with
        | .error e => _
        | .ok rest => _) = _
      dsimp only
      cases (Pool.rebuildRows cfg children rows).run <;> rfl

/-- The direct read gives every row with its lost columns rebuilt. -/
theorem rebuildRows_run (cfg : Option Draid.Config) (children : List (Child Id))
    (written : List (Map × List (List UInt8)))
    (h : ∀ w ∈ written, Damaged (pureReads cfg children) w.1 w.2 ∧ Narrow w.1) :
    ∃ rows, (Pool.rebuildRows cfg children
        (written.map (fun w => asRead (pureReads cfg children) w.1))).run = .ok rows ∧
      List.Forall₂ (fun w row => Direct (pureReads cfg children) w.1 w.2 row) written rows := by
  induction written with
  | nil => exact ⟨[], rfl, List.Forall₂.nil⟩
  | cons w written ih =>
    obtain ⟨rest, hrest, hall⟩ := ih (fun w hw => h w (List.mem_cons_of_mem _ hw))
    obtain ⟨hw, hn⟩ := h w List.mem_cons_self
    rw [List.map_cons, rebuildRows_step, hrest]
    dsimp only
    by_cases hlost : (asRead (pureReads cfg children) w.1).lost = []
    · have havailable : ¬ (asRead (pureReads cfg children) w.1).lost.length >
          (asRead (pureReads cfg children) w.1).available := by
        rw [hlost]
        exact Nat.not_lt_zero _
      rw [withParityIfLost, if_pos hlost, if_neg havailable, Columns.rebuilt, if_pos hlost]
      exact ⟨_, rfl, List.Forall₂.cons (hw.direct_whole hlost) hall⟩
    · obtain ⟨data, hrec, hdirect⟩ := hw.direct_rebuilt hn
      have havailable : ¬ (asRead (pureReads cfg children) w.1).lost.length >
          ((parityReads (pureReads cfg children) w.1).filter Option.isSome).length := by
        rw [length_filter_isSome]
        exact not_lt.mpr (hw.enough hn)
      rw [withParityIfLost, if_neg hlost, Columns.available]
      dsimp only
      rw [if_neg havailable, Columns.rebuilt]
      dsimp only
      rw [if_neg hlost, hrec]
      exact ⟨_, rfl, List.Forall₂.cons hdirect hall⟩

/-! ## The search -/

namespace Pool

variable (p : Pool) {io : Io Id} {bp : Ondisk.BlkPtr} {rows : List Columns}

/-- Rows that cannot be rebuilt end a striped read. -/
theorem readStriped_lost {node : Node} {dva : Ondisk.Dva} (i : Nat) {e : Bool × ReadError}
    (h : (Pool.rebuildRows node.cfg (childrenOf io node.children)
      ((node.rowMaps dva.offset bp.psize).map
        (asRead (pureReads node.cfg (childrenOf io node.children))))).run = .error e) :
    (p.readStriped io node dva bp i).run.2 = .error e.2 := by
  rw [← readRows_run] at h
  rw [Pool.readStriped]
  simp only [Id.run_bind]
  rw [h]
  rfl

theorem tryTrials_isSome {r : Nat} {data : List (List UInt8)} {ts : List Pool.Trial}
    {t : Pool.Trial} (ht : t ∈ ts) {rebuilt : List (List UInt8)}
    (hok : Raidz.reconstruct data t.usable t.missing = .ok rebuilt)
    (hverdict : p.verdict bp (Pool.assemble bp.psize (Pool.withData rows r rebuilt)) ≠ .mismatch) :
    (p.tryTrials io bp rows r data ts).run.isSome := by
  induction ts with
  | nil => cases ht
  | cons u ts ih =>
    unfold Pool.tryTrials
    cases hu : Raidz.reconstruct data u.usable u.missing with
    | error e =>
      cases ht with
      | head => rw [hu] at hok; cases hok
      | tail _ ht => exact ih ht
    | ok other =>
      have hv := p.verify_run io bp (Pool.assemble bp.psize (Pool.withData rows r other))
      show (Id.run (α := Option (List UInt8 × Ondisk.Verify))
        (if (p.verify io bp (Pool.assemble bp.psize (Pool.withData rows r other))).run ≠ .mismatch
          then _ else _)).isSome
      rw [hv]
      by_cases hm : p.verdict bp (Pool.assemble bp.psize (Pool.withData rows r other)) ≠ .mismatch
      · rw [if_pos hm]
        rfl
      · rw [if_neg hm]
        cases ht with
        | head =>
          rw [hu] at hok
          cases hok
          exact absurd hverdict hm
        | tail _ ht => exact ih ht

theorem search_isSome {rs : List (Columns × Nat)} {row : Columns} {r : Nat} (hr : (row, r) ∈ rs)
    (h : (p.tryTrials io bp rows r row.data (Pool.trials row)).run.isSome) :
    (p.search io bp rows rs).run.isSome := by
  induction rs with
  | nil => cases hr
  | cons x rs ih =>
    unfold Pool.search
    simp only [Id.run_bind]
    cases hx : (p.tryTrials io bp rows x.2 x.1.data (Pool.trials x.1)).run with
    | some found => rfl
    | none =>
      cases hr with
      | head => rw [hx] at h; cases h
      | tail _ hr => exact ih hr

/-- The assembled block of rows that hold what was written. -/
theorem assemble_eq {written : List (Map × List (List UInt8))} {psize : Nat}
    (h : rows.map Columns.data = written.map Prod.snd) :
    Pool.assemble psize rows = (written.flatMap (fun w => w.2.flatten)).take psize := by
  unfold Pool.assemble
  have hmap : (rows.map Columns.data).map List.flatten =
      (written.map Prod.snd).map List.flatten := by rw [h]
  rw [List.map_map, List.map_map] at hmap
  rw [List.flatMap_def, List.flatMap_def]
  exact congrArg (fun l => (List.flatten l).take psize) hmap

/-- The rows once their parity is read. -/
def withParity (reads : ColumnReads) (row : Columns) : Columns :=
  { row with parity := parityReads reads row.map }

/-- Damage that the direct read left is in one row, and a trial of that row undoes it. -/
theorem search_recovers (io : Io Id) {reads : ColumnReads} {written : List (Map × List (List UInt8))}
    {direct : List Columns} {content : List UInt8}
    (hall : List.Forall₂ (fun w row => Direct reads w.1 w.2 row) written direct)
    (h : ∀ w ∈ written, Damaged reads w.1 w.2 ∧ Narrow w.1)
    (r₀ : Nat) (hone : ∀ r w, written[r]? = some w → r ≠ r₀ → FailsOnly reads w.1 w.2)
    (hcontent : (written.flatMap (fun w => w.2.flatten)).take bp.psize = content)
    (hverdict : p.verdict bp content ≠ .mismatch)
    (hdirect : p.verdict bp (Pool.assemble bp.psize direct) = .mismatch) :
    (p.search io bp (direct.map (withParity reads))
      (direct.map (withParity reads)).zipIdx).run.isSome := by
  have hne : direct.map Columns.data ≠ written.map Prod.snd := by
    intro heq
    rw [assemble_eq heq, hcontent] at hdirect
    exact hverdict hdirect
  obtain ⟨r, hr⟩ : ∃ r, (direct[r]?).map Columns.data ≠ (written[r]?).map Prod.snd := by
    by_contra hno
    apply hne
    apply List.ext_getElem?
    intro r
    rw [List.getElem?_map, List.getElem?_map]
    by_contra hr
    exact hno ⟨r, hr⟩
  have hother : ∀ r', r' ≠ r₀ → (direct[r']?).map Columns.data = (written[r']?).map Prod.snd := by
    intro r' hr'
    have hrel := rel_getElem? hall r'
    cases hw : written[r']? with
    | none => rw [hw] at hrel; cases hd : direct[r']? with
      | none => rfl
      | some row => rw [hd] at hrel; cases hrel
    | some w => rw [hw] at hrel; cases hd : direct[r']? with
      | none => rw [hd] at hrel; cases hrel
      | some row =>
        rw [hd] at hrel
        cases hrel with
        | some hrow =>
          rw [Option.map_some, Option.map_some, hrow.honest (hone r' w hw hr')]
  have hr₀ : r = r₀ := by
    by_contra hr'
    exact hr (hother r hr')
  subst hr₀
  have hrel := rel_getElem? hall r
  cases hw : written[r]? with
  | none =>
    rw [hw] at hrel hr
    cases hd : direct[r]? with
    | none => rw [hd] at hr; exact absurd rfl hr
    | some row => rw [hd] at hrel; cases hrel
  | some w =>
    rw [hw] at hrel hr
    cases hd : direct[r]? with
    | none => rw [hd] at hrel; cases hrel
    | some row =>
      rw [hd] at hrel hr
      cases hrel with
      | some hrow =>
        have hdata : row.data ≠ w.2 := fun heq => hr (by rw [Option.map_some, Option.map_some, heq])
        obtain ⟨hw', hn⟩ := h w (List.mem_of_getElem? hw)
        have hsilent := hn.silent_pos (fun hf => hdata (hrow.honest hf))
        have hneeds : badData reads w.1 w.2 ≠ [] := by
          intro hnil
          apply hdata
          apply eq_of_column hrow.lengths
          intro j
          apply hrow.kept
          rw [hnil]
          exact List.not_mem_nil
        have hparity : (withParity reads row).parity = parityReads reads w.1 := by
          show parityReads reads row.map = _
          rw [hrow.map]
        have hlost : (withParity reads row).lost = (asRead reads w.1).lost := hrow.lost
        obtain ⟨t, ht, hok⟩ := hw'.exists_trial hn hlost hparity hrow.lengths hrow.kept hsilent
          hneeds
        have hmem : (withParity reads row, r) ∈ (direct.map (withParity reads)).zipIdx := by
          rw [List.mem_zipIdx_iff_getElem?, List.getElem?_map, hd]
          rfl
        apply p.search_isSome hmem
        apply p.tryTrials_isSome ht hok
        have hassembled : (Pool.withData (direct.map (withParity reads)) r w.2).map Columns.data =
            written.map Prod.snd := by
          apply List.ext_getElem?
          intro r'
          unfold Pool.withData
          rw [List.getElem?_map, List.getElem?_map, List.getElem?_modify, List.getElem?_map]
          by_cases hr' : r = r'
          · subst hr'
            rw [hd, hw]
            simp
          · rw [← hother r' (fun heq => hr' heq.symm)]
            simp only [hr', if_false]
            cases direct[r']? with
            | none => rfl
            | some row' => rfl
        rw [assemble_eq hassembled, hcontent]
        exact hverdict

theorem readStriped_isOk (io : Io Id) {node : Node} {dva : Ondisk.Dva} (i : Nat)
    {content : List UInt8} (written : List (Map × List (List UInt8)))
    (hmaps : written.map Prod.fst = node.rowMaps dva.offset bp.psize)
    (h : ∀ w ∈ written,
      Damaged (pureReads node.cfg (childrenOf io node.children)) w.1 w.2 ∧ Narrow w.1)
    (r₀ : Nat) (hone : ∀ r w, written[r]? = some w → r ≠ r₀ →
      FailsOnly (pureReads node.cfg (childrenOf io node.children)) w.1 w.2)
    (hcontent : (written.flatMap (fun w => w.2.flatten)).take bp.psize = content)
    (hverdict : p.verdict bp content ≠ .mismatch) :
    ∃ found, (p.readStriped io node dva bp i).run.2 = .ok found := by
  generalize hreads : pureReads node.cfg (childrenOf io node.children) = reads at h hone
  have hrows : (readRows node (childrenOf io node.children) dva.offset bp.psize).run =
      written.map (fun w => asRead reads w.1) := by
    unfold readRows
    rw [List.idRun_mapM, ← hmaps, List.map_map]
    apply List.map_congr_left
    intro w _
    rw [← hreads]
    exact readRow_run w.1
  obtain ⟨direct, hdirect, hall⟩ := rebuildRows_run node.cfg (childrenOf io node.children) written
    (by rw [hreads]; exact h)
  rw [hreads] at hdirect hall
  unfold Pool.readStriped
  simp only [Id.run_bind]
  rw [hrows, hdirect]
  simp only [Id.run_bind]
  rw [p.verify_run]
  by_cases hv : p.verdict bp (Pool.assemble bp.psize direct) ≠ .mismatch
  · rw [if_pos hv]
    exact ⟨_, rfl⟩
  · rw [if_neg hv]
    have hparity : (direct.mapM (readParity node.cfg (childrenOf io node.children))).run =
        direct.map (withParity reads) := by
      rw [List.idRun_mapM]
      apply List.map_congr_left
      intro row hrow
      obtain ⟨w, hw⟩ := rel_of_mem_right hall hrow
      rw [← hreads]
      apply readParity_run
      rw [hreads, hw.map]
      exact hw.parity
    simp only [Id.run_bind]
    rw [hparity]
    have hsome := p.search_recovers io hall h r₀ hone hcontent hverdict (not_not.mp hv)
    cases hs : (p.search io bp (direct.map (withParity reads))
        (direct.map (withParity reads)).zipIdx).run with
    | none => rw [hs] at hsome; cases hsome
    | some found => exact ⟨_, rfl⟩

end Pool

end Block

/-! ## The rows of a vdev -/

/-- A RAID-Z or dRAID of one to three parities whose rows have at most 255 data columns. -/
def Node.NarrowStripe : Node → Prop
  | .raidz nparity _ children =>
    1 ≤ nparity ∧ nparity ≤ 3 ∧ nparity < children.length ∧ children.length ≤ nparity + 255
  | .draid cfg _ _ => cfg.nparity ≤ 3 ∧ Draid.WellFormed cfg
  | _ => False

theorem swapFirst_length (cols : List Column) : (swapFirst cols).length = cols.length := by
  match cols with
  | [] => rfl
  | [_] => rfl
  | _ :: _ :: _ => rfl

theorem map_cols_length (offset psize ashift dcols nparity : Nat) :
    (Raidz.map offset psize ashift dcols nparity).cols.length =
      (shares (divCeil psize (shl64 1 ashift)) dcols nparity).scols := by
  unfold Raidz.map
  show (if nparity = 1 ∧ offset.testBit 20 = true then _ else _ : List Column).length = _
  by_cases h : nparity = 1 ∧ offset.testBit 20 = true
  · rw [if_pos h, swapFirst_length, List.length_map, List.length_range]
  · rw [if_neg h, List.length_map, List.length_range]

/-- The sectors of a padded block, which is not empty and has a 32-bit size. -/
theorem paddedSize_sectors (ashift : Nat) {size : Nat} (hpos : 0 < size) (hsize : size ≤ 2 ^ 32) :
    0 < divCeil (paddedSize size ashift) (shl64 1 ashift) ∧
      divCeil (paddedSize size ashift) (shl64 1 ashift) ≤ size := by
  have hunit : shl64 1 ashift = 2 ^ (ashift % 64) := by
    unfold shl64
    rw [Nat.one_mul]
    exact Nat.mod_eq_of_lt (Nat.pow_lt_pow_right (by decide) (Nat.mod_lt _ (by decide)))
  have hle : 2 ^ (ashift % 64) ≤ 2 ^ 63 := Nat.pow_le_pow_right (by decide) (by omega)
  have hunitpos : 0 < 2 ^ (ashift % 64) := Nat.two_pow_pos _
  unfold paddedSize
  rw [hunit]
  generalize 2 ^ (ashift % 64) = unit at hle hunitpos
  have hup := le_divCeil_mul (a := size) hunitpos
  have hdown := divCeil_mul_lt (a := size) hunitpos
  rw [mul64_of_lt (by unfold word; omega)]
  constructor
  · exact divCeil_pos (by omega) hunitpos
  · apply divCeil_le hunitpos
    apply Nat.mul_le_mul_right
    exact divCeil_le hunitpos (Nat.le_mul_of_pos_right size hunitpos)

theorem narrow_of_raidz {offset size ashift dcols nparity : Nat} (hpos : 0 < size)
    (hsize : size ≤ 2 ^ 32) (hle : nparity ≤ 3) (hdcols : nparity < dcols)
    (hwide : dcols ≤ nparity + 255) :
    Narrow (Raidz.map offset (paddedSize size ashift) ashift dcols nparity) := by
  have hlen := map_cols_length offset (paddedSize size ashift) ashift dcols nparity
  obtain ⟨hs, hsle⟩ := paddedSize_sectors ashift hpos hsize
  generalize divCeil (paddedSize size ashift) (shl64 1 ashift) = s at hlen hs hsle
  have hrows : divCeil s (dcols - nparity) ≤ s :=
    divCeil_le (by omega) (Nat.le_mul_of_pos_right s (by omega))
  have hprod : nparity * divCeil s (dcols - nparity) ≤ 3 * s := Nat.mul_le_mul hle hrows
  have hshared := shares_spec hdcols (show 2 * dcols ≤ word by unfold word; omega)
    (show s + nparity * divCeil s (dcols - nparity) < word by unfold word; omega)
  have hscols : nparity < (shares s dcols nparity).scols := by
    by_cases hq : (shares s dcols nparity).q = 0
    · have hsectors := hshared.sectors
      have hacols := hshared.acols_eq
      have hacols_le := hshared.acols_le
      rw [hq, Nat.mul_zero, Nat.zero_add] at hsectors
      rw [if_pos hq] at hacols
      omega
    · rw [hshared.full hq]
      exact hdcols
  have hscols_le := hshared.scols_le
  refine { nparity_le := hle, parity_length := ?_, data_length := ?_ }
  · show ((Raidz.map offset (paddedSize size ashift) ashift dcols nparity).cols.take nparity).length =
      nparity
    rw [List.length_take, hlen]
    omega
  · unfold Map.data
    show ((List.take _ _).drop nparity).length ≤ 255
    rw [List.length_drop, List.length_take, hlen]
    omega

theorem narrow_of_draid {cfg : Draid.Config} (hcfg : Draid.WellFormed cfg) (hle : cfg.nparity ≤ 3)
    (offset size ashift : Nat) : Narrow (cfg.row offset size ashift) := by
  have hwidth := hcfg.groupwidth_eq
  have hdisks := hcfg.groupwidth_le
  have hchildren := hcfg.ndisks_le
  have hlen : (cfg.row offset size ashift).cols.length = cfg.groupwidth := by
    show ((List.range cfg.groupwidth).map _).length = _
    rw [List.length_map, List.length_range]
  refine { nparity_le := hle, parity_length := ?_, data_length := ?_ }
  · show ((cfg.row offset size ashift).cols.take cfg.nparity).length = cfg.nparity
    rw [List.length_take, hlen]
    omega
  · unfold Map.data
    rw [List.length_drop, List.length_take, hlen]
    omega

theorem one_or_two_rows (cfg : Draid.Config) (offset psize ashift : Nat) : ∃ n,
    cfg.map offset psize ashift =
      if n < psize then
        [cfg.row offset n ashift, cfg.row (add64 offset (cfg.asize n ashift)) (psize - n) ashift]
      else [cfg.row offset n ashift] :=
  ⟨_, rfl⟩

theorem row_of_mem_map {cfg : Draid.Config} {offset psize ashift : Nat} {m : Map}
    (hm : m ∈ cfg.map offset psize ashift) : ∃ o n, m = cfg.row o n ashift := by
  obtain ⟨n, hmap⟩ := one_or_two_rows cfg offset psize ashift
  rw [hmap] at hm
  by_cases hn : n < psize
  · rw [if_pos hn] at hm
    cases List.mem_cons.mp hm with
    | inl hm => exact ⟨_, _, hm⟩
    | inr hm => exact ⟨_, _, List.mem_singleton.mp hm⟩
  · rw [if_neg hn] at hm
    exact ⟨_, _, List.mem_singleton.mp hm⟩

/-- Every row that holds a block has its parity columns and at most 255 data columns. -/
theorem Node.NarrowStripe.rows {node : Node} (h : node.NarrowStripe) {offset size : Nat}
    (hpos : 0 < size) (hlt : size < 2 ^ 32) {m : Map} (hm : m ∈ node.rowMaps offset size) :
    Narrow m := by
  cases node with
  | raidz nparity ashift children =>
    obtain ⟨-, hle, hdcols, hwide⟩ := h
    rw [List.mem_singleton.mp hm]
    exact narrow_of_raidz hpos hlt.le hle hdcols hwide
  | draid cfg ashift children =>
    obtain ⟨hle, hcfg⟩ := h
    obtain ⟨o, n, rfl⟩ := row_of_mem_map hm
    exact narrow_of_draid hcfg hle o n ashift
  | leaf device guid => cases hm
  | mirror children => cases hm
  | dspare spareId => cases hm
  | unsupported kind => cases hm

/-! ## Recovery -/

/-- The reads of the columns of a vdev over contents. -/
def Contents.columnReads {ω : Type} (D : Contents) (r : Reader ω) (node : Node) : ColumnReads :=
  pureReads node.cfg (childrenOf (D.io r) node.children)

/-- A block comes back whole if no row has more bad columns than parity columns, and bad
columns that give other bytes are in one row. -/
theorem readStriped_recovers {ω : Type} {r : Reader ω} {D : Contents} (hr : Steady r D)
    {s : ReaderState ω} (hs : Quiet D s) {node : Node} (hnode : node.NarrowStripe)
    {dva : Ondisk.Dva} {bp : Ondisk.BlkPtr} (i : Nat) (hpos : 0 < bp.psize)
    (hlt : bp.psize < 2 ^ 32) {content : List UInt8} (written : List (Map × List (List UInt8)))
    (hmaps : written.map Prod.fst = node.rowMaps dva.offset bp.psize)
    (hcontent : (written.flatMap (fun w => w.2.flatten)).take bp.psize = content)
    (hdamaged : ∀ w ∈ written, Damaged (D.columnReads r node) w.1 w.2)
    (r₀ : Nat) (hone : ∀ j w, written[j]? = some w → j ≠ r₀ →
      FailsOnly (D.columnReads r node) w.1 w.2)
    (hchecksum : ∀ raw, r.pool.verdict bp raw = if raw = content then .ok else .mismatch) :
    (r.pool.readStriped r.io node dva bp i s).1.2 = .ok (content, .ok) := by
  have hok : r.pool.verdict bp content ≠ .mismatch := by
    rw [hchecksum, if_pos rfl]
    simp
  obtain ⟨found, hfound⟩ := r.pool.readStriped_isOk (D.io r) i written hmaps
    (fun w hw => ⟨hdamaged w hw, hnode.rows hpos hlt (by
      rw [← hmaps]
      exact List.mem_map_of_mem hw)⟩) r₀ hone hcontent hok
  have hrun := (r.pool.readStriped_refines hr.io_refines node dva bp i).run hs
  have hkeeps : r.pool.NotRefuted bp (r.pool.readStriped r.io node dva bp i s).1.2 :=
    (r.pool.readStriped_keeps node dva bp i s True.intro).1
  rw [hrun] at hkeeps ⊢
  rw [hfound] at hkeeps ⊢
  obtain ⟨raw, v⟩ := found
  obtain ⟨hv, hm⟩ := hkeeps raw v rfl
  rw [hchecksum] at hv
  by_cases hraw : raw = content
  · rw [if_pos hraw] at hv
    rw [hv, hraw]
  · rw [if_neg hraw] at hv
    exact absurd hv hm

/-! ## A damaged column, and a row that is too wide -/

/-- The pool of one vdev whose hash knows one content only. -/
def knowingPool (node : Node) (content : List UInt8) : Pool :=
  { barePool node with
    hashes := { noHashes with
      sha256 := fun raw => if raw = content then List.replicate 32 1 else List.replicate 32 0 } }

def knownPointer (psize : Nat) : Ondisk.BlkPtr :=
  { saltedPointer with
    lsize := psize
    psize := psize
    checksum := .sha256
    cksum := Ondisk.digestWords (List.replicate 32 1) }

theorem knowingPool_verdict (node : Node) (content raw : List UInt8) (psize : Nat) :
    (knowingPool node content).verdict (knownPointer psize) raw =
      if raw = content then .ok else .mismatch := by
  show (if Ondisk.digestWords (if raw = content then _ else _) =
    Ondisk.digestWords (List.replicate 32 1) then Ondisk.Verify.ok else .mismatch) = _
  by_cases h : raw = content
  · rw [if_pos h, if_pos rfl, if_pos h]
  · rw [if_neg h, if_neg h, if_neg (by decide)]

def startDva : Ondisk.Dva := { vdev := 0, offset := 0, asize := 2048, gang := false }

/-- `Damaged.sized` as a computation. -/
def sizedAll (read : ColumnReads) (m : Map) : Bool :=
  m.data.all (fun c =>
    match read c with
    | .ok b => b.length = c.size
    | .error _ => true)

theorem sized_of_all {read : ColumnReads} {m : Map} (h : sizedAll read m = true) :
    ∀ c ∈ m.data, ∀ b, read c = .ok b → b.length = c.size := by
  intro c hc b hb
  have hall := List.all_eq_true.mp h c hc
  simp only [hb, decide_eq_true_eq] at hall
  exact hall

def rottenNode : Node := .raidz 1 9 [.leaf (some 0) 1, .leaf (some 1) 2]

/-- A parity column, and a data column of sevens that gives nines. -/
def rottenReader : Reader Unit :=
  { devices := [some (filledWith 7), some (filledWith 9)]
    bases := []
    pool := knowingPool rottenNode (List.replicate 512 7) }

def rottenContents : Contents := fun index _ size =>
  .ok (List.replicate size (if index = 0 then 7 else 9))

theorem rottenReader_steady : Steady rottenReader rottenContents where
  answer := by
    intro index dev hdev offset size w
    match index, hdev with
    | 0, hdev => cases hdev; rfl
    | 1, hdev => cases hdev; rfl
    | _ + 2, hdev => cases hdev
  goesOn := by
    intro index offset size e h
    cases h

theorem rottenNode_narrow : rottenNode.NarrowStripe := by
  show 1 ≤ 1 ∧ 1 ≤ 3 ∧ 1 < 2 ∧ 2 ≤ 1 + 255
  decide

theorem rottenRow_damaged : Damaged (rottenContents.columnReads rottenReader rottenNode)
    (Raidz.map 0 512 9 2 1) [List.replicate 512 7] where
  fits := by decide +kernel
  sized := sized_of_all (by decide +kernel)
  few := by
    have hnparity : (Raidz.map 0 512 9 2 1).nparity = 1 := rfl
    rw [badParity, hnparity, generateParity_singleton _ (by decide)]
    decide +kernel

theorem readStriped_recovers_rotten_column :
    (rottenReader.pool.readStriped rottenReader.io rottenNode startDva (knownPointer 512) 0
      startState).1.2 = .ok (List.replicate 512 7, .ok) := by
  refine readStriped_recovers rottenReader_steady (startState_quiet _) rottenNode_narrow 0
    (by decide) (by decide)
    [(Raidz.map 0 512 9 2 1, [List.replicate 512 7])] ?_ ?_ ?_ 0 ?_ ?_
  · decide
  · decide +kernel
  · intro w hw
    rw [List.mem_singleton.mp hw]
    exact rottenRow_damaged
  · intro j w hw hj
    match j, hj with
    | 0, hj => exact absurd rfl hj
    | _ + 1, _ => cases hw
  · intro raw
    exact knowingPool_verdict _ _ raw 512

/-! The bound on the columns cannot be dropped: with 256 data columns the first and the last
have the same coefficients, and losing both of them is not undone. -/

def wideChildren : List Node :=
  (List.range 258).map (fun i => .leaf (if i = 2 ∨ i = 257 then none else some i) i)

/-- Two parities over 256 data columns, the first and the last of which are missing. -/
def wideReader : Reader Unit :=
  { devices := List.replicate 258 (some (filledWith 0))
    bases := []
    pool := knowingPool (.raidz 2 1 wideChildren) (List.replicate 512 0) }

theorem wideReader_steady : Steady wideReader blankContents where
  answer := by
    intro index dev hdev offset size w
    have hmem : dev = filledWith 0 := by
      unfold wideReader at hdev
      rw [List.getD_eq_getElem?_getD, List.getElem?_replicate] at hdev
      by_cases hi : index < 258
      · rw [if_pos hi] at hdev
        exact (Option.some.inj hdev).symm
      · rw [if_neg hi] at hdev
        cases hdev
    rw [hmem]
    rfl
  goesOn := by
    intro index offset size e h
    cases h

/-- What the columns of the wide vdev read. -/
def wideReads : ColumnReads := fun c =>
  if c.size = 0 then .ok []
  else if c.devidx = 2 ∨ c.devidx = 257 then .error .noMember
  else if c.devidx < 258 then .ok (List.replicate c.size 0)
  else .error (.unknownVdev (c.devidx % 2 ^ 32))

theorem wideReader_reads :
    blankContents.columnReads wideReader (.raidz 2 1 wideChildren) = wideReads := by
  funext c
  show Id.run (readColumn none (childrenOf (blankContents.io wideReader) wideChildren) c) = _
  rw [readColumn, wideReads]
  by_cases hsize : c.size = 0
  · rw [if_pos hsize, if_pos hsize]
    rfl
  have hlen : (childrenOf (blankContents.io wideReader) wideChildren).length = 257 + 1 := by
    simp [childrenOf_eq, wideChildren]
  rw [if_neg hsize, if_neg hsize, hlen, readColumnFrom, childrenOf_eq, List.getElem?_map,
    wideChildren, List.getElem?_map]
  by_cases hlt : c.devidx < 258
  · rw [List.getElem?_range hlt, if_pos hlt]
    by_cases hgone : c.devidx = 2 ∨ c.devidx = 257
    · rw [if_pos hgone, Option.map_some, Option.map_some, if_pos hgone]
      rfl
    · rw [if_neg hgone, Option.map_some, Option.map_some, if_neg hgone]
      show firstOk .noMember
        [(blankContents.io wideReader).readLeaf (some c.devidx) c.offset c.size] = _
      have hdevice : wideReader.device (some c.devidx) = some (c.devidx, filledWith 0) := by
        show (wideReader.devices.getD c.devidx none).map _ = _
        rw [List.getD_eq_getElem?_getD, wideReader, List.getElem?_replicate, if_pos hlt]
        rfl
      unfold Contents.io
      dsimp only
      rw [hdevice]
      rfl
  · have hnone : (List.range 258)[c.devidx]? = none := List.getElem?_eq_none (by simp; omega)
    have hgone : ¬ (c.devidx = 2 ∨ c.devidx = 257) := by omega
    rw [hnone, if_neg hgone, if_neg hlt]
    rfl

theorem wideReads_length {c : Column} {b : List UInt8} (h : wideReads c = .ok b) :
    b.length = c.size := by
  rw [wideReads] at h
  by_cases hsize : c.size = 0
  · rw [if_pos hsize] at h
    cases h
    exact hsize.symm
  · rw [if_neg hsize] at h
    split at h
    · cases h
    · split at h <;> cases h
      exact List.length_replicate

theorem wideReads_data {i : Nat} (hi : i < 256) :
    wideReads ⟨i + 2, 0, 2⟩ = if i = 0 ∨ i = 255 then .error .noMember else .ok [0, 0] := by
  rw [wideReads]
  dsimp only
  rw [if_neg (by decide)]
  by_cases h : i = 0 ∨ i = 255
  · rw [if_pos (by omega), if_pos h]
  · rw [if_neg (by omega), if_pos (by omega), if_neg h]
    rfl

/-- The one row of a block of 512 bytes. -/
def wideRow : Map := Raidz.map 0 512 1 258 2

theorem wideRow_cols : wideRow.cols = (List.range 258).map (fun c => ⟨c, 0, 2⟩) := by
  have hfits : Fits 0 512 1 258 2 :=
    ⟨by decide, by decide, by decide, by decide⟩
  have hshares : shares (dataSectors 512 1) 258 2 = ⟨1, 0, 258, 258, 258⟩ := rfl
  rw [wideRow, map_cols hfits]
  dsimp only
  rw [hshares, if_neg (by decide), gridColumns]
  refine List.map_congr_left (fun c hc => ?_)
  have hlt : c < 258 := List.mem_range.mp hc
  show Column.mk ((0 + c) % 258) ((0 + c) / 258 * 2) (Shares.count ⟨1, 0, 258, 258, 258⟩ c * 2) = _
  rw [Nat.zero_add, Nat.mod_eq_of_lt hlt, Nat.div_eq_of_lt hlt, Shares.count]
  simp [hlt]

theorem wideRow_data : wideRow.data = (List.range 256).map (fun c => ⟨c + 2, 0, 2⟩) := by
  have hacols : wideRow.acols = 258 := rfl
  have hrange : (List.range 258).drop 2 = (List.range 256).map (· + 2) :=
    List.ext_getElem (by simp) (fun i _ _ => by simp [Nat.add_comm])
  rw [Map.data, wideRow_cols, hacols, List.take_of_length_le (by simp)]
  show List.drop 2 _ = _
  rw [← List.map_drop, hrange, List.map_map]
  rfl

theorem wideRow_parityReads : parityReads wideReads wideRow = [some [0, 0], some [0, 0]] := by
  have hparity : wideRow.parity = [⟨0, 0, 2⟩, ⟨1, 0, 2⟩] := by
    rw [Map.parity, wideRow_cols]
    rfl
  rw [parityReads, hparity]
  rfl

theorem wideRow_reads : wideRow.data.map wideReads =
    (List.range 256).map (fun i => if i = 0 ∨ i = 255 then .error .noMember else .ok [0, 0]) := by
  rw [wideRow_data, List.map_map]
  exact List.map_congr_left (fun i hi => wideReads_data (List.mem_range.mp hi))

theorem wideRow_asRead : (asRead wideReads wideRow).data = List.replicate 256 [0, 0] := by
  have hcol : ∀ i ∈ List.range 256, (match (if i = 0 ∨ i = 255 then .error .noMember
      else .ok [0, 0] : Except ReadError (List UInt8)) with
      | .ok b => b
      | .error _ => List.replicate 2 0) = [0, 0] := by
    intro i _
    by_cases h : i = 0 ∨ i = 255
    · rw [if_pos h]
      rfl
    · rw [if_neg h]
  have hblank : (List.range 256).map (fun _ => [(0 : UInt8), 0]) = List.replicate 256 [0, 0] := by
    rw [List.map_const', List.length_range]
  rw [asRead, wideRow_reads, Columns.ofReads, wideRow_data, List.zipWith_map, List.zipWith_self,
    ← hblank]
  exact List.map_congr_left hcol

/-- The places of the columns that are gone, however that shows. -/
theorem wideRow_gone {p : Nat → Bool} (h : ∀ i < 256, p i = decide (i = 0 ∨ i = 255)) :
    (List.range 256).filter p = [0, 255] := by
  rw [List.filter_congr (fun i hi => h i (List.mem_range.mp hi))]
  decide

theorem wideRow_lost : (asRead wideReads wideRow).lost = [0, 255] := by
  have hlen : (wideRow.data.map wideReads).length = 256 := by
    rw [wideRow_reads, List.length_map, List.length_range]
  rw [asRead, Columns.ofReads]
  dsimp only
  rw [hlen]
  refine wideRow_gone (fun i hi => ?_)
  rw [wideRow_reads, List.getElem?_map, List.getElem?_range hi]
  by_cases h : i = 0 ∨ i = 255
  · simp [h]
  · simp [h]

theorem wideRow_damaged : Damaged wideReads wideRow (List.replicate 256 [0, 0]) where
  fits := by
    have hsizes : (List.range 256).map (fun _ => 2) = List.replicate 256 2 := by
      rw [List.map_const', List.length_range]
    rw [wideRow_data, List.map_map, List.map_replicate]
    exact hsizes.symm
  sized := fun _ _ _ hb => wideReads_length hb
  few := by
    have hdata : badData wideReads wideRow (List.replicate 256 [0, 0]) = [0, 255] := by
      have hlen : wideRow.data.length = 256 := by
        rw [wideRow_data, List.length_map, List.length_range]
      rw [badData, badColumns, hlen]
      refine wideRow_gone (fun i hi => ?_)
      rw [← List.getElem?_map, wideRow_reads, List.getElem?_map, List.getElem?_range hi,
        List.getElem?_replicate, if_pos hi]
      by_cases h : i = 0 ∨ i = 255
      · simp [h]
      · simp [h]
    have hparity : badParity wideReads wideRow (List.replicate 256 [0, 0]) = [] := by
      rw [badParity, Map.parity, wideRow_cols]
      decide +kernel
    rw [hdata, hparity]
    decide

/-- The first and the last column cannot be told apart. -/
theorem wideRow_singular {cfg : Option Draid.Config} {children : List (Child Id)}
    (h : pureReads cfg children = wideReads) :
    (Pool.rebuildRows cfg children [asRead (pureReads cfg children) wideRow]).run =
      .error (false, .unrecoverable (reconstructText .singular)) := by
  have hlost : (asRead wideReads wideRow).lost ≠ [] := by
    rw [wideRow_lost]
    simp
  have hsingular : Raidz.reconstruct (List.replicate 256 [0, 0]) [some [0, 0], some [0, 0]]
      [0, 255] = .error .singular := by
    decide +kernel
  have havailable : ¬ (withParityIfLost wideReads wideRow).lost.length >
      (withParityIfLost wideReads wideRow).available := by
    rw [withParityIfLost_lost, withParityIfLost, if_neg hlost, Columns.available, wideRow_lost,
      wideRow_parityReads]
    decide
  have hrebuilt : (withParityIfLost wideReads wideRow).rebuilt =
      .error (.unrecoverable (reconstructText .singular)) := by
    rw [withParityIfLost_rebuilt hlost, wideRow_asRead, wideRow_parityReads, wideRow_lost,
      hsingular]
  rw [rebuildRows_step, h]
  dsimp only
  rw [if_neg havailable, hrebuilt]

theorem readStriped_wide_row :
    ¬ ∀ (ω : Type) (r : Reader ω) (D : Contents), Steady r D → ∀ s, Quiet D s →
      ∀ (nparity ashift : Nat) (children : List Node), 1 ≤ nparity → nparity ≤ 3 →
        nparity < children.length →
      ∀ (dva : Ondisk.Dva) (bp : Ondisk.BlkPtr) (i : Nat), 0 < bp.psize → bp.psize < 2 ^ 32 →
      ∀ (content : List UInt8) (written : List (Map × List (List UInt8))),
        written.map Prod.fst =
          (Node.raidz nparity ashift children).rowMaps dva.offset bp.psize →
        (written.flatMap (fun w => w.2.flatten)).take bp.psize = content →
        (∀ w ∈ written, Damaged (D.columnReads r (.raidz nparity ashift children)) w.1 w.2) →
        (∀ raw, r.pool.verdict bp raw = if raw = content then .ok else .mismatch) →
        (r.pool.readStriped r.io (.raidz nparity ashift children) dva bp i s).1.2 =
          .ok (content, .ok) := by
  intro h
  have hlen : wideChildren.length = 258 := by
    rw [wideChildren, List.length_map, List.length_range]
  have hmaps : (Node.raidz 2 1 wideChildren).rowMaps startDva.offset (knownPointer 512).psize =
      [wideRow] := by
    have hsize : paddedSize (knownPointer 512).psize 1 = 512 := by decide
    rw [Node.rowMaps, hsize, hlen]
    rfl
  have hok := h Unit wideReader blankContents wideReader_steady startState (startState_quiet _) 2 1
    wideChildren (by decide) (by decide) (by rw [hlen]; decide) startDva (knownPointer 512) 0
    (by decide) (by decide) (List.replicate 512 0) [(wideRow, List.replicate 256 [0, 0])]
    hmaps.symm (by decide +kernel)
    (by
      intro w hw
      rw [List.mem_singleton.mp hw, wideReader_reads]
      exact wideRow_damaged)
    (fun raw => knowingPool_verdict _ _ raw 512)
  have herr : (wideReader.pool.readStriped (blankContents.io wideReader) (.raidz 2 1 wideChildren)
      startDva (knownPointer 512) 0).run.2 = .error (.unrecoverable (reconstructText .singular)) := by
    refine wideReader.pool.readStriped_lost 0 (e := (false, _)) ?_
    rw [hmaps]
    exact wideRow_singular wideReader_reads
  rw [(wideReader.pool.readStriped_refines wideReader_steady.io_refines (.raidz 2 1 wideChildren)
    startDva (knownPointer 512) 0).run (startState_quiet _)] at hok
  rw [hok] at herr
  cases herr

end Zio
end ZvolRescue
