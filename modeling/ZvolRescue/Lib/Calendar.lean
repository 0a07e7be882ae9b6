import Mathlib.Data.Int.ConditionallyCompleteOrder
import Mathlib.Data.Prod.Lex
import Mathlib.Logic.Function.Iterate
import Mathlib.Order.Lattice.Nat
import Mathlib.Order.Monotone.Basic

/-!
# The proleptic Gregorian calendar

A day is followed by the next one, by the lengths of the months and the leap rule; days are
numbered from the first of January 1970.
-/

namespace ZvolRescue
namespace Lib
namespace Calendar

def IsLeap (year : Int) : Prop := year % 4 = 0 ∧ (year % 100 ≠ 0 ∨ year % 400 = 0)

instance (year : Int) : Decidable (IsLeap year) := inferInstanceAs (Decidable (_ ∧ _))

def monthLength (year month : Int) : Int :=
  if month = 2 then (if IsLeap year then 29 else 28)
  else if month = 4 ∨ month = 6 ∨ month = 9 ∨ month = 11 then 30
  else 31

theorem monthLength_bounds (year month : Int) :
    28 ≤ monthLength year month ∧ monthLength year month ≤ 31 := by
  unfold monthLength
  grind

/-- A day that exists. -/
@[ext]
structure Day where
  year : Int
  month : Int
  day : Int
  month_pos : 1 ≤ month
  month_le : month ≤ 12
  day_pos : 1 ≤ day
  day_le : day ≤ monthLength year month
deriving DecidableEq

namespace Day

/-- The first of January 1970. -/
def epoch : Day := ⟨1970, 1, 1, by decide, by decide, by decide, by decide⟩

/-- The day after. -/
def next (d : Day) : Day :=
  if hday : d.day < monthLength d.year d.month then
    ⟨d.year, d.month, d.day + 1, d.month_pos, d.month_le, by have := d.day_pos; omega, hday⟩
  else if hmonth : d.month < 12 then
    ⟨d.year, d.month + 1, 1, by have := d.month_pos; omega, hmonth, Int.le_refl 1,
      (by decide : (1 : Int) ≤ 28).trans (monthLength_bounds _ _).1⟩
  else
    ⟨d.year + 1, 1, 1, Int.le_refl 1, by decide, Int.le_refl 1,
      (by decide : (1 : Int) ≤ 28).trans (monthLength_bounds _ _).1⟩

/-- Year, month and day, the greatest unit first. -/
def key (d : Day) : Int ×ₗ Int ×ₗ Int := toLex (d.year, toLex (d.month, d.day))

theorem next_cases (d : Day) :
    (d.day < monthLength d.year d.month ∧ d.next.year = d.year ∧ d.next.month = d.month ∧
      d.next.day = d.day + 1) ∨
    (d.day = monthLength d.year d.month ∧ d.month < 12 ∧ d.next.year = d.year ∧
      d.next.month = d.month + 1 ∧ d.next.day = 1) ∨
    (d.day = monthLength d.year d.month ∧ d.month = 12 ∧ d.next.year = d.year + 1 ∧
      d.next.month = 1 ∧ d.next.day = 1) := by
  have hday := d.day_le
  have hmonth := d.month_le
  unfold next
  split
  · exact .inl ⟨‹_›, rfl, rfl, rfl⟩
  · split
    · exact .inr (.inl ⟨by omega, ‹_›, rfl, rfl, rfl⟩)
    · exact .inr (.inr ⟨by omega, by omega, rfl, rfl, rfl⟩)

theorem key_lt_iff {d e : Day} :
    d.key < e.key ↔ d.year < e.year ∨
      d.year = e.year ∧ (d.month < e.month ∨ d.month = e.month ∧ d.day < e.day) := by
  rw [key, key, Prod.Lex.toLex_lt_toLex, Prod.Lex.toLex_lt_toLex]

theorem key_lt_next (d : Day) : d.key < d.next.key := by
  rw [key_lt_iff]
  have := d.next_cases
  omega

/-! ## The number of a day -/

/-- The years are counted from March, so that a leap day ends one, and so are their months. -/
def marchYear (year month : Int) : Int := if month ≤ 2 then year - 1 else year

def marchMonth (month : Int) : Int := if month ≤ 2 then month + 9 else month - 3

/-- The days from the epoch to the first of a month. -/
def monthStart (year month : Int) : Int :=
  let y := marchYear year month
  365 * y + y / 4 - y / 100 + y / 400 + (153 * marchMonth month + 2) / 5 - 719468

/-- The days since the epoch. -/
def number (d : Day) : Int := monthStart d.year d.month + (d.day - 1)

theorem number_epoch : epoch.number = 0 := by decide

theorem monthStart_succ (year : Int) {month : Int} (hpos : 1 ≤ month) (hmonth : month < 12) :
    monthStart year (month + 1) = monthStart year month + monthLength year month := by
  have hcases : month = 1 ∨ month = 2 ∨ month = 3 ∨ month = 4 ∨ month = 5 ∨ month = 6 ∨
      month = 7 ∨ month = 8 ∨ month = 9 ∨ month = 10 ∨ month = 11 := by
    omega
  rcases hcases with rfl | rfl | rfl | rfl | rfl | rfl | rfl | rfl | rfl | rfl | rfl
  -- February is followed by March in the next of the years counted from there.
  case inr.inl =>
    simp only [monthStart, marchYear, marchMonth, monthLength, Int.reduceAdd, Int.reduceLE,
      ↓reduceIte]
    by_cases hleap : IsLeap year
    · rw [if_pos hleap]
      unfold IsLeap at hleap
      omega
    · rw [if_neg hleap]
      unfold IsLeap at hleap
      omega
  all_goals
    simp [monthStart, marchYear, marchMonth, monthLength]
    try omega

theorem monthStart_year (year : Int) : monthStart (year + 1) 1 = monthStart year 12 + 31 := by
  simp only [monthStart, marchYear, marchMonth, Int.reduceLE, ↓reduceIte, Int.add_sub_cancel]
  omega

theorem number_next (d : Day) : d.next.number = d.number + 1 := by
  unfold number
  obtain ⟨-, hy, hm, hd⟩ | ⟨hlast, hlt, hy, hm, hd⟩ | ⟨hlast, hlt, hy, hm, hd⟩ := d.next_cases
  · rw [hy, hm, hd]
    omega
  · rw [hy, hm, hd, hlast, monthStart_succ d.year d.month_pos hlt]
    omega
  · rw [hy, hm, hd, hlast, hlt, monthStart_year]
    simp only [monthLength, Int.reduceEq, ↓reduceIte, or_self]
    omega

theorem number_iterate (n : Nat) : (next^[n] epoch).number = n := by
  induction n with
  | zero => exact number_epoch
  | succ n ih =>
    rw [Function.iterate_succ_apply', number_next, ih]
    omega

theorem iterate_strictMono : StrictMono (fun n => (next^[n] epoch).key) := by
  refine strictMono_nat_of_lt_succ (fun n => ?_)
  rw [Function.iterate_succ_apply']
  exact key_lt_next _

/-! ## The day of a number -/

theorem century_of_dayOfEra {c doe : Int} (hc : 0 ≤ c) (hlt : c < 4) (hlow : 36524 * c ≤ doe)
    (hhigh : doe < 36524 * c + 36524) : doe / 36524 - doe / 146096 = c := by
  have hquot : doe / 36524 = c := by omega
  have hlast : doe / 146096 = 0 := by omega
  omega

theorem year_of_dayOfEra {yoe doy : Int} (hyoe : 0 ≤ yoe) (hlt : yoe < 400) (hdoy : 0 ≤ doy)
    (hle : doy ≤ 365)
    (hleap : doy = 365 → (yoe + 1) % 4 = 0 ∧ ((yoe + 1) % 100 ≠ 0 ∨ (yoe + 1) % 400 = 0)) :
    let doe := 365 * yoe + yoe / 4 - yoe / 100 + doy
    0 ≤ doe ∧ doe < 146097 ∧ (doe - doe / 1460 + doe / 36524 - doe / 146096) / 365 = yoe := by
  intro doe
  have hdoe : doe = 365 * yoe + yoe / 4 - yoe / 100 + doy := rfl
  clear_value doe
  have hbounds : 0 ≤ doe ∧ doe < 146097 := by omega
  refine ⟨hbounds.1, hbounds.2, ?_⟩
  have hin : 36524 * (yoe / 100) ≤ doe := by omega
  have hquarter : yoe % 100 / 4 ≤ 24 := by omega
  have hcentury : doe / 36524 - doe / 146096 = yoe / 100 := by
    by_cases hlast : yoe = 399 ∧ doy = 365
    · obtain ⟨rfl, rfl⟩ := hlast
      omega
    · have hnext : doe < 36524 * (yoe / 100) + 36524 := by
        rcases Int.lt_or_eq_of_le hle with hshort | hlong
        · omega
        · have hhundred := hleap hlong
          omega
      exact century_of_dayOfEra (by omega) (by omega) hin hnext
  have hfour : doe / 1460 = yoe / 4 ∨ doe / 1460 = yoe / 4 + 1 := by omega
  have hsame : doe / 1460 = yoe / 4 → doy ≤ 364 := by
    intro h
    omega
  have hnext : doe / 1460 = yoe / 4 + 1 → 1 ≤ doy := by
    intro h
    omega
  omega

theorem month_of_dayOfYear (d : Day) :
    let mp := marchMonth d.month
    let doy := (153 * mp + 2) / 5 + d.day - 1
    0 ≤ doy ∧ doy ≤ 365 ∧ (5 * doy + 2) / 153 = mp ∧
      (if mp < 10 then mp + 3 else mp - 9) = d.month ∧
      (doy = 365 → d.month = 2 ∧ IsLeap d.year) := by
  have hpos := d.day_pos
  have hle := d.day_le
  have hmonth := d.month_pos
  have hmonth' := d.month_le
  have hcases : d.month = 1 ∨ d.month = 2 ∨ d.month = 3 ∨ d.month = 4 ∨ d.month = 5 ∨
      d.month = 6 ∨ d.month = 7 ∨ d.month = 8 ∨ d.month = 9 ∨ d.month = 10 ∨ d.month = 11 ∨
      d.month = 12 := by
    omega
  rcases hcases with h | h | h | h | h | h | h | h | h | h | h | h
  case inr.inl =>
    rw [h, monthLength, if_pos rfl] at hle
    simp only [h, marchMonth]
    by_cases hleap : IsLeap d.year
    · rw [if_pos hleap] at hle
      simp [hleap]
      omega
    · rw [if_neg hleap] at hle
      simp
      omega
  all_goals
    simp [h, monthLength] at hle
    simp [h, marchMonth]
    omega

end Day

end Calendar
end Lib
end ZvolRescue
