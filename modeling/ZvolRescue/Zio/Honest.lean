import ZvolRescue.Lib.Counting
import ZvolRescue.Zio.Recovery

/-!
# Rows that lose columns but do not lie

A row whose columns give what was written to them, where they read at all, comes back whole if no
more columns are lost than it has parity, and otherwise is refused.
-/

namespace ZvolRescue
namespace Zio

open Lib Raidz

/-- A column that reads gives what was written: the data `orig`, or their parity. -/
structure Honest (read : ColumnReads) (m : Map) (orig : List (List UInt8)) : Prop where
  fits : orig.map List.length = m.data.map Column.size
  data : ∀ (i : Nat) c b, m.data[i]? = some c → read c = .ok b → orig[i]? = some b
  parity : ∀ (i : Nat) c b, m.parity[i]? = some c → read c = .ok b →
    (generateParity orig m.nparity)[i]? = some b

def fails (read : ColumnReads) (c : Column) : Bool := (read c).toOption.isNone

/-- How many columns of the row do not read. -/
def lostColumns (read : ColumnReads) (m : Map) : Nat := (m.parity ++ m.data).countP (fails read)

section Row

variable {read : ColumnReads} {m : Map} {orig : List (List UInt8)}

theorem fails_iff {c : Column} : fails read c = true ↔ ∃ e, read c = .error e := by
  rw [fails]
  cases read c with
  | ok b => simp [Except.toOption]
  | error e => simp [Except.toOption]

theorem Honest.length_eq (h : Honest read m orig) : orig.length = m.data.length := by
  have hlen := congrArg List.length h.fits
  rwa [List.length_map, List.length_map] at hlen

/-- The data columns are as long as they were written, read or not. -/
theorem Honest.lengths (h : Honest read m orig) :
    (asRead read m).data.map List.length = orig.map List.length := by
  rw [h.fits]
  apply List.ext_getElem?
  intro i
  rw [List.getElem?_map, asRead_data_getElem?, List.getElem?_map]
  cases hc : m.data[i]? with
  | none => rfl
  | some c =>
    cases hread : read c with
    | error e => simp [hread]
    | ok b =>
      have hb := congrArg (Option.map List.length) (h.data i c b hc hread)
      rw [← List.getElem?_map, h.fits, List.getElem?_map, hc, Option.map_some] at hb
      simp [hread, Option.some.inj hb]

theorem Honest.kept (h : Honest read m orig) {i : Nat} (hi : i ∉ (asRead read m).lost) :
    column (asRead read m).data i = column orig i := by
  rw [column, column, List.getD_eq_getElem?_getD, List.getD_eq_getElem?_getD,
    asRead_data_getElem?]
  cases hc : m.data[i]? with
  | none =>
    have hlen := List.getElem?_eq_none_iff.mp hc
    rw [List.getElem?_eq_none (by rw [h.length_eq]; exact hlen)]
    rfl
  | some c =>
    cases hread : read c with
    | error e => exact absurd (mem_lost.mpr ⟨c, e, hc, hread⟩) hi
    | ok b =>
      rw [h.data i c b hc hread]
      simp [hread]

theorem Honest.parityOf (h : Honest read m orig) (hn : Narrow m) :
    ParityOf orig (parityReads read m) := by
  refine ParityOf.generateParity hn.nparity_le parityReads_length (fun i b hb => ?_)
  have hlt : i < m.nparity := by
    by_contra hge
    rw [List.getD_eq_default _ _ (by rw [parityReads_length]; omega)] at hb
    cases hb
  rw [parityReads_getD i hlt] at hb
  obtain ⟨c, hc, hread⟩ := Option.bind_eq_some_iff.mp hb
  have hok : read c = .ok b := by
    cases hr : read c with
    | error e => rw [hr] at hread; cases hread
    | ok b' => rw [hr] at hread; cases hread; rfl
  rw [column, List.getD_eq_getElem?_getD, h.parity i c b hc hok]
  rfl

/-- With enough parity the lost columns are rebuilt. -/
theorem Honest.reconstruct (h : Honest read m orig) (hn : Narrow m)
    (henough : (asRead read m).lost.length ≤ (survivingRows (parityReads read m)).length) :
    Raidz.reconstruct (asRead read m).data (parityReads read m) (asRead read m).lost =
      .ok orig := by
  refine reconstruct_eq_ok (h.parityOf hn) ?_ lost_nodup (fun i hi => ?_) h.lengths
    (fun i hi => h.kept hi) henough
  · rw [h.length_eq]
    exact hn.data_length
  · rw [h.length_eq]
    exact lost_lt hi

/-- A row without lost columns is what was written. -/
theorem Honest.whole (h : Honest read m orig) (hlost : (asRead read m).lost = []) :
    (asRead read m).data = orig := by
  refine eq_of_column h.lengths (fun i => h.kept ?_)
  rw [hlost]
  exact List.not_mem_nil

/-- The lost columns are those of the data that do not read. -/
theorem lost_length : (asRead read m).lost.length = m.data.countP (fails read) := by
  rw [← length_filter_range, asRead, Columns.ofReads, List.length_map]
  refine congrArg List.length (List.filter_congr (fun i _ => ?_))
  rw [List.getElem?_map]
  cases m.data[i]? with
  | none => rfl
  | some c =>
    simp only [Option.map_some, Option.any_some, fails]
    cases read c <;> rfl

/-- The parity columns survive that read. -/
theorem surviving_length (hn : Narrow m) :
    (survivingRows (parityReads read m)).length + m.parity.countP (fails read) = m.nparity := by
  have hsurviving : (survivingRows (parityReads read m)).length =
      m.parity.countP (fun c => !fails read c) := by
    rw [← length_filter_range, survivingRows, parityReads_length, hn.parity_length]
    refine congrArg List.length (List.filter_congr (fun i hi => ?_))
    rw [parityReads_getD i (List.mem_range.mp hi)]
    cases m.parity[i]? with
    | none => rfl
    | some c =>
      simp only [Option.bind_some, Option.any_some, fails]
      cases read c <;> rfl
  have hcount := List.length_eq_countP_add_countP (fails read) (l := m.parity)
  rw [hn.parity_length] at hcount
  simp only [decide_not, Bool.decide_eq_true] at hcount
  omega

/-- There is enough parity exactly where no more columns are lost than the row has parity. -/
theorem enough_iff (hn : Narrow m) :
    (asRead read m).lost.length ≤ (survivingRows (parityReads read m)).length ↔
      lostColumns read m ≤ m.nparity := by
  have hlost := @lost_length read m
  have hsurviving := @surviving_length read m hn
  rw [lostColumns, List.countP_append]
  omega

/-- A row that can be rebuilt is rebuilt as it was written. -/
theorem Honest.rebuilt (h : Honest read m orig) (hn : Narrow m)
    (hfew : lostColumns read m ≤ m.nparity) : (withParityIfLost read m).rebuilt = .ok orig := by
  by_cases hlost : (asRead read m).lost = []
  · rw [withParityIfLost, if_pos hlost, Columns.rebuilt, if_pos hlost, h.whole hlost]
  · rw [withParityIfLost_rebuilt hlost, h.reconstruct hn ((enough_iff hn).mpr hfew)]

/-- A row that lost more columns than it has parity lost some of its data. -/
theorem lost_of_many (hn : Narrow m) (hmany : m.nparity < lostColumns read m) :
    (asRead read m).lost ≠ [] := by
  intro hlost
  have henough := (@enough_iff read m hn).mp (by rw [hlost]; exact Nat.zero_le _)
  omega

theorem rebuilt_of_many (hn : Narrow m) (hmany : m.nparity < lostColumns read m) :
    ∃ e, (withParityIfLost read m).rebuilt = .error e := by
  have hlost := lost_of_many hn hmany
  have hfew : (survivingRows (parityReads read m)).length < (asRead read m).lost.length := by
    by_contra hle
    have henough := (@enough_iff read m hn).mp (not_lt.mp hle)
    omega
  have hpos : (asRead read m).lost.length ≠ 0 := fun h => hlost (List.length_eq_zero_iff.mp h)
  rw [withParityIfLost_rebuilt hlost, Raidz.reconstruct, if_neg hpos, if_pos hfew]
  exact ⟨_, rfl⟩

theorem available_iff (hn : Narrow m) :
    (withParityIfLost read m).lost.length ≤ (withParityIfLost read m).available ↔
      lostColumns read m ≤ m.nparity := by
  rw [← enough_iff hn, withParityIfLost, Columns.available]
  by_cases hlost : (asRead read m).lost = []
  · rw [if_pos hlost, hlost]
    simp
  · rw [if_neg hlost]
    dsimp only
    rw [length_filter_isSome]

end Row

/-! ## The rows of a block -/

section Rows

variable {cfg : Option Draid.Config} {children : List (Child Id)}
  {written : List (Map × List (List UInt8))}

/-- No row lost more columns than it has parity. -/
def FewLost (read : ColumnReads) (written : List (Map × List (List UInt8))) : Prop :=
  ∀ w ∈ written, lostColumns read w.1 ≤ w.1.nparity

theorem wholeRows_cons (m : Map) (rows : List Columns) :
    (wholeRows cfg children (asRead (pureReads cfg children) m :: rows)).run =
      match (withParityIfLost (pureReads cfg children) m).rebuilt with
      | .error e => .error e
      | .ok data =>
        match (wholeRows cfg children rows).run with
        | .error e => .error e
        | .ok rest => .ok (data.flatten ++ rest) := by
  rw [wholeRows, ← readParityIfLost_run]
  show Id.run (match (readParityIfLost cfg children (asRead (pureReads cfg children) m)).run.rebuilt
    with
    | .error e => _
    | .ok data => _) = _
  cases (readParityIfLost cfg children (asRead (pureReads cfg children) m)).run.rebuilt with
  | error e => rfl
  | ok data =>
    show Id.run (match (wholeRows cfg children rows).run with
      | .error e => _
      | .ok rest => _) = _
    dsimp only
    cases (wholeRows cfg children rows).run <;> rfl

/-- Whole rows read as they were written, or the read is refused. -/
theorem wholeRows_run (h : ∀ w ∈ written, Honest (pureReads cfg children) w.1 w.2 ∧ Narrow w.1) :
    (FewLost (pureReads cfg children) written →
      (wholeRows cfg children (written.map (fun w => asRead (pureReads cfg children) w.1))).run =
        .ok (written.flatMap (fun w => w.2.flatten))) ∧
    (¬ FewLost (pureReads cfg children) written → ∃ e,
      (wholeRows cfg children (written.map (fun w => asRead (pureReads cfg children) w.1))).run =
        .error e) := by
  induction written with
  | nil => exact ⟨fun _ => rfl, fun hnot => absurd (fun w hw => by cases hw) hnot⟩
  | cons w written ih =>
    obtain ⟨hhonest, hn⟩ := h w List.mem_cons_self
    obtain ⟨hok, herror⟩ := ih (fun w' hw' => h w' (List.mem_cons_of_mem _ hw'))
    rw [List.map_cons, wholeRows_cons]
    by_cases hfew : lostColumns (pureReads cfg children) w.1 ≤ w.1.nparity
    · rw [hhonest.rebuilt hn hfew]
      have hcons : FewLost (pureReads cfg children) (w :: written) ↔
          FewLost (pureReads cfg children) written := by
        simp [FewLost, hfew]
      rw [hcons]
      refine ⟨fun hall => ?_, fun hnot => ?_⟩
      · rw [hok hall]
        rfl
      · obtain ⟨e, he⟩ := herror hnot
        rw [he]
        exact ⟨e, rfl⟩
    · obtain ⟨e, he⟩ := rebuilt_of_many hn (not_le.mp hfew)
      rw [he]
      exact ⟨fun hall => absurd (hall w List.mem_cons_self) hfew, fun _ => ⟨e, rfl⟩⟩

theorem rebuildRows_honest
    (h : ∀ w ∈ written, Honest (pureReads cfg children) w.1 w.2 ∧ Narrow w.1) :
    (FewLost (pureReads cfg children) written → ∃ rows, (Pool.rebuildRows cfg children
        (written.map (fun w => asRead (pureReads cfg children) w.1))).run = .ok rows ∧
      rows.map Columns.data = written.map Prod.snd) ∧
    (¬ FewLost (pureReads cfg children) written → ∃ e, (Pool.rebuildRows cfg children
        (written.map (fun w => asRead (pureReads cfg children) w.1))).run = .error e) := by
  induction written with
  | nil => exact ⟨fun _ => ⟨[], rfl, rfl⟩, fun hnot => absurd (fun w hw => by cases hw) hnot⟩
  | cons w written ih =>
    obtain ⟨hhonest, hn⟩ := h w List.mem_cons_self
    obtain ⟨hok, herror⟩ := ih (fun w' hw' => h w' (List.mem_cons_of_mem _ hw'))
    rw [List.map_cons, rebuildRows_step]
    dsimp only
    by_cases hfew : lostColumns (pureReads cfg children) w.1 ≤ w.1.nparity
    · rw [if_neg (not_lt.mpr ((available_iff hn).mpr hfew)), hhonest.rebuilt hn hfew]
      have hcons : FewLost (pureReads cfg children) (w :: written) ↔
          FewLost (pureReads cfg children) written := by
        simp [FewLost, hfew]
      rw [hcons]
      refine ⟨fun hall => ?_, fun hnot => ?_⟩
      · obtain ⟨rows, hrows, hdata⟩ := hok hall
        rw [hrows]
        exact ⟨_, rfl, congrArg (w.2 :: ·) hdata⟩
      · obtain ⟨e, he⟩ := herror hnot
        rw [he]
        exact ⟨e, rfl⟩
    · have hmany : ¬ (withParityIfLost (pureReads cfg children) w.1).lost.length ≤
          (withParityIfLost (pureReads cfg children) w.1).available :=
        fun hle => hfew ((available_iff hn).mp hle)
      rw [if_pos (not_le.mp hmany)]
      exact ⟨fun hall => absurd (hall w List.mem_cons_self) hfew, fun _ => ⟨_, rfl⟩⟩

/-- A striped read gives the block where no row lost too many columns, and fails otherwise. -/
theorem readStriped_honest (p : Pool) (io : Io Id) {node : Node} {dva : Ondisk.Dva}
    {bp : Ondisk.BlkPtr} (i : Nat) {content : List UInt8}
    (hmaps : written.map Prod.fst = node.rowMaps dva.offset bp.psize)
    (hcontent : (written.flatMap (fun w => w.2.flatten)).take bp.psize = content)
    (h : ∀ w ∈ written,
      Honest (pureReads node.cfg (childrenOf io node.children)) w.1 w.2 ∧ Narrow w.1)
    (hverdict : p.verdict bp content ≠ .mismatch) :
    (FewLost (pureReads node.cfg (childrenOf io node.children)) written →
      (p.readStriped io node dva bp i).run.2 = .ok (content, p.verdict bp content)) ∧
    (¬ FewLost (pureReads node.cfg (childrenOf io node.children)) written →
      ∃ e, (p.readStriped io node dva bp i).run.2 = .error e) := by
  have hrows : (readRows node (childrenOf io node.children) dva.offset bp.psize).run =
      written.map (fun w => asRead (pureReads node.cfg (childrenOf io node.children)) w.1) := by
    rw [readRows_run, ← hmaps, List.map_map]
    rfl
  obtain ⟨hok, herror⟩ := rebuildRows_honest h
  refine ⟨fun hfew => ?_, fun hnot => ?_⟩
  · obtain ⟨rows, hrun, hdata⟩ := hok hfew
    rw [Pool.readStriped]
    simp only [Id.run_bind]
    rw [hrows, hrun]
    simp only [Id.run_bind]
    rw [Pool.verify_run, Pool.assemble_eq hdata, hcontent, if_pos hverdict]
    rfl
  · obtain ⟨e, he⟩ := herror hnot
    refine ⟨e.2, p.readStriped_lost i ?_⟩
    rw [← readRows_run, hrows, he]

end Rows

end Zio
end ZvolRescue
