import Mathlib.Data.Prod.Lex
import ZvolRescue.Lib.Calendar
import ZvolRescue.Lib.Decimal
import ZvolRescue.Lib.Text

/-!
# Instants as text

`iso8601` writes seconds since the epoch as a date and a time, and `parseTimestamp` reads them
back.
-/

namespace ZvolRescue
namespace Common

open Lib

/-- A date and a time of day, as fields. -/
structure Stamp where
  year : Int
  month : Int
  day : Int
  hour : Nat
  minute : Nat
  second : Nat
deriving DecidableEq

namespace Stamp

/-- `YYYY-MM-DDTHH:MM:SSZ`. -/
def text (f : Stamp) : List Char :=
  paddedInt 4 f.year ++ '-' :: (paddedInt 2 f.month ++ '-' :: (paddedInt 2 f.day ++ 'T' ::
    (padded 2 f.hour ++ ':' :: (padded 2 f.minute ++ ':' :: (padded 2 f.second ++ ['Z'])))))

/-- The fields, the greatest unit first. -/
def key (f : Stamp) : Int ×ₗ Int ×ₗ Int ×ₗ Nat ×ₗ Nat ×ₗ Nat :=
  toLex (f.year, toLex (f.month, toLex (f.day, toLex (f.hour, toLex (f.minute, f.second)))))

end Stamp

/-! ## Writing -/

/-- The date and the time of an instant.  No day number of 64 bits of seconds comes near the end of
the range of the arithmetic. -/
def civil (unix : Nat) : Stamp :=
  let days : Int := (unix / 86400 : Nat)
  let secs := unix % 86400
  let z := days + 719468
  let era := z / 146097
  let doe := z % 146097
  let yoe := (doe - doe / 1460 + doe / 36524 - doe / 146096) / 365
  let y := yoe + era * 400
  let doy := doe - (365 * yoe + yoe / 4 - yoe / 100)
  let mp := (5 * doy + 2) / 153
  let d := doy - (153 * mp + 2) / 5 + 1
  let m := if mp < 10 then mp + 3 else mp - 9
  let y := if m ≤ 2 then y + 1 else y
  { year := y, month := m, day := d
    hour := secs / 3600, minute := secs / 60 % 60, second := secs % 60 }

def iso8601 (unix : Nat) : List Char := (civil unix).text

/-! ## Reading -/

/-- What arithmetic makes of a result: `none` where a build stops because it leaves the range. -/
structure Overflow where
  i64 : Int → Option Int
  u64 : Nat → Option Nat
  i64_of_fits : ∀ x, -2 ^ 63 ≤ x → x < 2 ^ 63 → i64 x = some x
  u64_of_fits : ∀ x, x < 2 ^ 64 → u64 x = some x

/-- Results wrap, as in a release build. -/
def wrapping : Overflow where
  i64 x := some (Int.bmod x (2 ^ 64))
  u64 x := some (x % 2 ^ 64)
  i64_of_fits x hlow hhigh := by
    rw [Int.bmod_eq_of_le (by omega) (by omega)]
  u64_of_fits x h := by rw [Nat.mod_eq_of_lt h]

/-- A result out of range stops the program. -/
def checked : Overflow where
  i64 x := if -2 ^ 63 ≤ x ∧ x < 2 ^ 63 then some x else none
  u64 x := if x < 2 ^ 64 then some x else none
  i64_of_fits _ hlow hhigh := if_pos ⟨hlow, hhigh⟩
  u64_of_fits _ h := if_pos h

/-- The date part. -/
def dateOf (date : List Char) : Option (Int × Int × Int) :=
  match date.splitOn '-' with
  | [y, m, day] => do
    let y ← parseI64 y
    let m ← parseI64 m
    let day ← parseI64 day
    if (1 ≤ m ∧ m ≤ 12) ∧ 1 ≤ day ∧ day ≤ 31 then some (y, m, day) else none
  | _ => none

/-- The time part: more after the seconds is not looked at. -/
def timeOf (time : List Char) : Option (Nat × Nat × Nat) :=
  match time.splitOn ':' with
  | hh :: mm :: rest => do
    let hh ← parseU64 hh
    let mm ← parseU64 mm
    let ss ← (rest.head?.map parseU64).getD (some 0)
    if hh > 23 ∨ mm > 59 ∨ ss > 60 then none else some (hh, mm, ss)
  | _ => none

/-- A separator and a time, or midnight. -/
def timePart : List Char → Option (Nat × Nat × Nat)
  | [] => some (0, 0, 0)
  | _ :: time => timeOf time

/-- Whether a character is not what stands between the date and the time. -/
def inDate (c : Char) : Bool := c ≠ 'T' && c ≠ ' '

/-- The fields of a date, perhaps with a time. -/
def fieldsOf (s : List Char) : Option Stamp := do
  let (y, m, day) ← dateOf (s.takeWhile inDate)
  let (hh, mm, ss) ← timePart (s.dropWhile inDate)
  some { year := y, month := m, day := day, hour := hh, minute := mm, second := ss }

/-- A final `Z` says nothing. -/
def stripZ (s : List Char) : List Char := if s.getLast? = some 'Z' then s.dropLast else s

/-- The days from the epoch.  The month and the day are small by now. -/
def daysOf (o : Overflow) (y m day : Int) : Option Int := do
  let y ← (if m ≤ 2 then o.i64 (y - 1) else some y)
  let era := y / 400
  let yoe := y % 400
  let mp := (m + 9) % 12
  let doy := (153 * mp + 2) / 5 + day - 1
  let doe := yoe * 365 + yoe / 4 - yoe / 100 + doy
  let eras ← o.i64 (era * 146097)
  let days ← o.i64 (eras + doe)
  o.i64 (days - 719468)

/-- The instant of fields. -/
def instant (o : Overflow) (f : Stamp) : Option (Option Nat) := do
  let days ← daysOf o f.year f.month f.day
  if days < 0 then return none
  let secs ← o.u64 (days.toNat * 86400)
  let secs ← o.u64 (secs + f.hour * 3600)
  let secs ← o.u64 (secs + f.minute * 60)
  let secs ← o.u64 (secs + f.second)
  return some secs

/-- The instant that a text gives, in seconds or as a date. -/
def parseTimestamp (o : Overflow) (s : List Char) : Option (Option Nat) :=
  let s := trim s
  match parseU64 s with
  | some n => some (some n)
  | none =>
    match fieldsOf (stripZ s) with
    | none => some none
    | some f => instant o f

end Common

/-! ## The incident ledger -/

namespace Medium

open Lib

/-- The ledger writes an instant by itself. -/
def iso8601 (unix : Nat) : List Char :=
  let days : Int := (unix / 86400 : Nat)
  let secs := unix % 86400
  let z := days + 719468
  let era := z / 146097
  let doe := z % 146097
  let yoe := (doe - doe / 1460 + doe / 36524 - doe / 146096) / 365
  let y := yoe + era * 400
  let doy := doe - (365 * yoe + yoe / 4 - yoe / 100)
  let mp := (5 * doy + 2) / 153
  let d := doy - (153 * mp + 2) / 5 + 1
  let m := if mp < 10 then mp + 3 else mp - 9
  let y := if m ≤ 2 then y + 1 else y
  paddedInt 4 y ++ '-' :: (paddedInt 2 m ++ '-' :: (paddedInt 2 d ++ 'T' ::
    (padded 2 (secs / 3600) ++ ':' :: (padded 2 (secs / 60 % 60) ++ ':' ::
      (padded 2 (secs % 60) ++ ['Z'])))))

end Medium

namespace Common

open Lib Lib.Calendar

/-! ## The date of an instant -/

/-- The fields of a second of a day. -/
def Stamp.of (d : Day) (secs : Nat) : Stamp :=
  { year := d.year, month := d.month, day := d.day
    hour := secs / 3600, minute := secs / 60 % 60, second := secs % 60 }

theorem civil_of_number {unix : Nat} {d : Day} (hd : d.number = (unix / 86400 : Nat)) :
    civil unix = Stamp.of d (unix % 86400) := by
  obtain ⟨hdoy, hdoy', hmp, hmonth, hleap⟩ := d.month_of_dayOfYear
  obtain ⟨y, hy⟩ : ∃ y, Day.marchYear d.year d.month = y := ⟨_, rfl⟩
  obtain ⟨doy, hdoyeq⟩ : ∃ doy, (153 * Day.marchMonth d.month + 2) / 5 + d.day - 1 = doy :=
    ⟨_, rfl⟩
  have hnumber : d.number + 719468 = 365 * y + y / 4 - y / 100 + y / 400 + doy := by
    simp only [Day.number, Day.monthStart, hy]
    omega
  simp only [hdoyeq] at hdoy hdoy' hmp hleap
  have hlast : doy = 365 → (y % 400 + 1) % 4 = 0 ∧
      ((y % 400 + 1) % 100 ≠ 0 ∨ (y % 400 + 1) % 400 = 0) := by
    intro h
    obtain ⟨htwo, hfour, hhundred⟩ := hleap h
    rw [Day.marchYear, if_pos (by omega)] at hy
    omega
  obtain ⟨hdoe, hdoe', hyoe⟩ := Day.year_of_dayOfEra (by omega) (by omega) hdoy hdoy' hlast
  obtain ⟨doe, hdoeeq⟩ : ∃ doe, 365 * (y % 400) + y % 400 / 4 - y % 400 / 100 + doy = doe :=
    ⟨_, rfl⟩
  simp only [hdoeeq] at hdoe hdoe' hyoe
  have hfours : y % 400 / 4 = y / 4 - 100 * (y / 400) := by omega
  have hhundreds : y % 400 / 100 = y / 100 - 4 * (y / 400) := by omega
  have hz : d.number + 719468 = 146097 * (y / 400) + doe := by omega
  have hera : (d.number + 719468) / 146097 = y / 400 := by omega
  have hinEra : (d.number + 719468) % 146097 = doe := by omega
  have hinYear : doe - (365 * (y % 400) + y % 400 / 4 - y % 400 / 100) = doy := by omega
  simp only [civil, ← hd, hera, hinEra, hyoe, hinYear, hmp, hmonth, Stamp.of]
  simp only [Stamp.mk.injEq, true_and, and_true]
  unfold Day.marchYear at hy
  refine ⟨?_, by omega⟩
  split <;> split at hy <;> omega

/-- The date of an instant is as many days after the epoch as have gone by. -/
theorem civil_eq (unix : Nat) :
    civil unix = Stamp.of (Day.next^[unix / 86400] Day.epoch) (unix % 86400) :=
  civil_of_number (Day.number_iterate _)

theorem of_key_lt (d : Day) {secs secs' : Nat} (h : secs < secs') :
    (Stamp.of d secs).key < (Stamp.of d secs').key := by
  have hhour : secs / 3600 = secs / 60 / 60 := by omega
  have hhour' : secs' / 3600 = secs' / 60 / 60 := by omega
  simp only [Stamp.key, Stamp.of, Prod.Lex.toLex_lt_toLex, lt_self_iff_false, false_or, true_and]
  omega

theorem civil_strictMono {unix later : Nat} (h : unix < later) :
    (civil unix).key < (civil later).key := by
  rw [civil_eq, civil_eq]
  rcases Nat.lt_or_eq_of_le (Nat.div_le_div_right (c := 86400) (Nat.le_of_lt h)) with hday | hday
  · have hkey := Day.iterate_strictMono hday
    rw [Day.key_lt_iff] at hkey
    simp only [Stamp.key, Stamp.of, Prod.Lex.toLex_lt_toLex]
    tauto
  · have hsecs : unix % 86400 < later % 86400 := by omega
    rw [hday]
    exact of_key_lt _ hsecs

/-! ## The instant of a date -/

/-- The days from the epoch to the day that fields give, whether it exists or not. -/
def Stamp.days (f : Stamp) : Int := Day.monthStart f.year f.month + (f.day - 1)

/-- The seconds of a day that have gone by. -/
def Stamp.secs (f : Stamp) : Nat := f.hour * 3600 + f.minute * 60 + f.second

/-- Fields as a text has them. -/
structure Stamp.InRange (f : Stamp) : Prop where
  year : 0 ≤ f.year
  month : 1 ≤ f.month ∧ f.month ≤ 12
  day : 1 ≤ f.day ∧ f.day ≤ 31
  hour : f.hour ≤ 23
  minute : f.minute ≤ 59
  second : f.second ≤ 60

namespace Stamp.InRange

variable {f : Stamp}

/-- The days of the fields, by the eras of 400 years. -/
theorem days_eq (h : f.InRange) {y : Int} (hy : Day.marchYear f.year f.month = y) :
    f.days = y / 400 * 146097 + (y % 400 * 365 + y % 400 / 4 - y % 400 / 100 +
      ((153 * ((f.month + 9) % 12) + 2) / 5 + f.day - 1)) - 719468 := by
  have hmonth : (f.month + 9) % 12 = Day.marchMonth f.month := by
    obtain ⟨hpos, hle⟩ := h.month
    unfold Day.marchMonth
    omega
  simp only [Stamp.days, Day.monthStart, hmonth, hy]
  have hfours : y % 400 / 4 = y / 4 - 100 * (y / 400) := by omega
  have hhundreds : y % 400 / 100 = y / 100 - 4 * (y / 400) := by omega
  omega

theorem daysOf_of_fits (h : f.InRange) (o : Overflow) (hyear : f.year < 2 ^ 54) :
    daysOf o f.year f.month f.day = some f.days := by
  obtain ⟨y, hy⟩ : ∃ y, Day.marchYear f.year f.month = y := ⟨_, rfl⟩
  have hdays := h.days_eq hy
  obtain ⟨hday, hday'⟩ := h.day
  obtain ⟨hmonth, hmonth'⟩ := h.month
  have hpos := h.year
  unfold Day.marchYear at hy
  have hmarch : (if f.month ≤ 2 then o.i64 (f.year - 1) else some f.year) = some y := by
    split at hy
    · rw [if_pos ‹_›, o.i64_of_fits _ (by omega) (by omega), hy]
    · rw [if_neg ‹_›, hy]
  have hrange : -1 ≤ y ∧ y < 2 ^ 54 := by
    split at hy <;> omega
  simp only [daysOf, hmarch, Option.bind_eq_bind, Option.bind_some]
  rw [o.i64_of_fits _ (by omega) (by omega), Option.bind_some,
    o.i64_of_fits _ (by omega) (by omega), Option.bind_some,
    o.i64_of_fits _ (by omega) (by omega), hdays]

theorem daysOf_checked (h : f.InRange) {days : Int}
    (hdays : daysOf checked f.year f.month f.day = some days) : days = f.days := by
  have hchecked : ∀ {x y : Int}, checked.i64 x = some y → y = x := by
    intro x y hxy
    simp only [checked, Option.ite_none_right_eq_some, Option.some.injEq] at hxy
    exact hxy.2.symm
  have hmarch : ∀ y, (if f.month ≤ 2 then checked.i64 (f.year - 1) else some f.year) = some y →
      y = Day.marchYear f.year f.month := by
    intro y hy
    unfold Day.marchYear
    split at hy
    · rw [if_pos ‹_›]
      exact hchecked hy
    · rw [if_neg ‹_›]
      exact (Option.some.inj hy).symm
  simp only [daysOf, Option.bind_eq_bind, Option.bind_eq_some_iff] at hdays
  obtain ⟨y, hy, eras, heras, sum, hsum, hdays⟩ := hdays
  rw [hchecked hdays, hchecked hsum, hchecked heras, h.days_eq (hmarch y hy).symm]

theorem year_lt (h : f.InRange) (hdays : f.days < 2 ^ 48) : f.year < 2 ^ 54 := by
  obtain ⟨hday, hday'⟩ := h.day
  obtain ⟨hmonth, hmonth'⟩ := h.month
  obtain ⟨y, hy⟩ : ∃ y, Day.marchYear f.year f.month = y := ⟨_, rfl⟩
  have hdays := h.days_eq hy
  unfold Day.marchYear at hy
  split at hy <;> omega

/-- No arithmetic leaves its range on the way to an instant of 64 bits. -/
theorem instant_of_fits (h : f.InRange) (o : Overflow) (hdays : 0 ≤ f.days)
    (hfits : f.days.toNat * 86400 + f.secs < 2 ^ 64) :
    instant o f = some (some (f.days.toNat * 86400 + f.secs)) := by
  have hyear := h.year_lt (by omega)
  unfold Stamp.secs at hfits ⊢
  obtain ⟨days, hdayseq⟩ : ∃ days, f.days.toNat = days := ⟨_, rfl⟩
  rw [hdayseq] at hfits
  have hbelow : ∀ x, x ≤ days * 86400 + (f.hour * 3600 + f.minute * 60 + f.second) →
      o.u64 x = some x :=
    fun x hx => o.u64_of_fits x (Nat.lt_of_le_of_lt hx hfits)
  have hday := hbelow (days * 86400) (by omega)
  have hhour := hbelow (days * 86400 + f.hour * 3600) (by omega)
  have hmin := hbelow (days * 86400 + f.hour * 3600 + f.minute * 60) (by omega)
  have hsec := hbelow (days * 86400 + f.hour * 3600 + f.minute * 60 + f.second) (by omega)
  simp only [instant, h.daysOf_of_fits o hyear, Option.bind_eq_bind, Option.bind_some,
    if_neg (Int.not_lt.mpr hdays), hdayseq, hday, hhour, hmin, hsec, Option.pure_def]
  rw [Nat.add_assoc, Nat.add_assoc, Nat.add_assoc]

theorem instant_checked (h : f.InRange) {unix : Nat}
    (hunix : instant checked f = some (some unix)) :
    0 ≤ f.days ∧ unix = f.days.toNat * 86400 + f.secs ∧ unix < 2 ^ 64 := by
  have hchecked : ∀ {x y : Nat}, checked.u64 x = some y → y = x ∧ y < 2 ^ 64 := by
    intro x y hxy
    simp only [checked, Option.ite_none_right_eq_some, Option.some.injEq] at hxy
    omega
  simp only [instant, Option.bind_eq_bind, Option.bind_eq_some_iff] at hunix
  obtain ⟨days, hdays, hunix⟩ := hunix
  obtain rfl := h.daysOf_checked hdays
  split at hunix
  · cases hunix
  · simp only [Option.bind_eq_some_iff, Option.pure_def, Option.some.injEq] at hunix
    obtain ⟨a, ha, b, hb, c, hc, d, hd, rfl⟩ := hunix
    have ha := hchecked ha
    have hb := hchecked hb
    have hc := hchecked hc
    have hd := hchecked hd
    unfold Stamp.secs
    omega

end Stamp.InRange

/-! ## What a text names -/

/-- A time of day behind a date, to the minute or the second; midnight has none. -/
inductive TimeText : List Char → Nat → Nat → Nat → Prop
  | midnight : TimeText [] 0 0 0
  | minutes {c : Char} {hh mm : List Char} {h m : Nat} : c = 'T' ∨ c = ' ' → Numeral hh h →
      Numeral mm m → TimeText (c :: (hh ++ ':' :: mm)) h m 0
  | seconds {c : Char} {hh mm ss : List Char} {h m s : Nat} : c = 'T' ∨ c = ' ' → Numeral hh h →
      Numeral mm m → Numeral ss s → TimeText (c :: (hh ++ ':' :: (mm ++ ':' :: ss))) h m s

/-- Year, month and day, and a time of day. -/
inductive DateText : List Char → Stamp → Prop
  | mk {y m d time : List Char} {year month day hour minute second : Nat} : Numeral y year →
      Numeral m month → Numeral d day → TimeText time hour minute second →
      DateText (y ++ '-' :: (m ++ '-' :: (d ++ time)))
        { year := year, month := month, day := day
          hour := hour, minute := minute, second := second }

/-- A text names a date and a time: nothing else stands in it than white space around them and a
final `Z`. -/
def Names (s : List Char) (f : Stamp) : Prop :=
  DateText (trim s) f ∨ ∃ body, trim s = body ++ ['Z'] ∧ DateText body f

theorem numeral_inDate {w : List Char} {n : Nat} (h : Numeral w n) : ∀ c ∈ w, inDate c = true := by
  intro c hc
  have hT : c ≠ 'T' := fun heq => h.notMem (by decide) (by decide) (heq ▸ hc)
  have hspace : c ≠ ' ' := fun heq => h.notMem (by decide) (by decide) (heq ▸ hc)
  simp [inDate, hT, hspace]

/-- The time part is read off a text of it. -/
theorem timePart_of_text {time : List Char} {h m s : Nat} (htime : TimeText time h m s)
    (hh : h ≤ 23) (hm : m ≤ 59) (hs : s ≤ 60) :
    time.takeWhile inDate = [] ∧ time.dropWhile inDate = time ∧
      timePart time = some (h, m, s) := by
  have hword : ∀ x, x ≤ 60 → x < 2 ^ 64 := by
    intro x hx
    omega
  have hsep : ∀ c, c = 'T' ∨ c = ' ' → ∀ rest : List Char,
      (c :: rest).takeWhile inDate = [] ∧ (c :: rest).dropWhile inDate = c :: rest := by
    intro c hc rest
    have hin : inDate c = false := by
      rcases hc with rfl | rfl <;> decide
    rw [List.takeWhile_cons, List.dropWhile_cons, hin]
    exact ⟨rfl, rfl⟩
  cases htime with
  | midnight => exact ⟨rfl, rfl, rfl⟩
  | @minutes c hours minutes _ _ hc hhour hminute =>
    refine ⟨(hsep c hc _).1, (hsep c hc _).2, ?_⟩
    rw [timePart]
    have hsplit : (hours ++ ':' :: minutes).splitOn ':' = [hours, minutes] := by
      rw [(hhour.splitOn (by decide) (by decide) _).2,
        (hminute.splitOn (by decide) (by decide) []).1]
    have hhour := hhour.parseU64
    have hminute := hminute.parseU64
    rw [if_pos (hword h (by omega))] at hhour
    rw [if_pos (hword m (by omega))] at hminute
    simp only [timeOf, hsplit, hhour, hminute, List.head?_nil, Option.map_none, Option.getD_none,
      Option.bind_eq_bind, Option.bind_some]
    rw [if_neg (by omega)]
  | @seconds c hours minutes secs _ _ _ hc hhour hminute hsecond =>
    refine ⟨(hsep c hc _).1, (hsep c hc _).2, ?_⟩
    rw [timePart]
    have hsplit : (hours ++ ':' :: (minutes ++ ':' :: secs)).splitOn ':' =
        [hours, minutes, secs] := by
      rw [(hhour.splitOn (by decide) (by decide) _).2,
        (hminute.splitOn (by decide) (by decide) _).2,
        (hsecond.splitOn (by decide) (by decide) []).1]
    have hhour := hhour.parseU64
    have hminute := hminute.parseU64
    have hsecond := hsecond.parseU64
    rw [if_pos (hword h (by omega))] at hhour
    rw [if_pos (hword m (by omega))] at hminute
    rw [if_pos (hword s (by omega))] at hsecond
    simp only [timeOf, hsplit, hhour, hminute, hsecond, List.head?_cons, Option.map_some,
      Option.getD_some, Option.bind_eq_bind, Option.bind_some]
    rw [if_neg (by omega)]

/-- The last character of a text is a digit. -/
theorem DateText.last {body : List Char} {f : Stamp} (h : DateText body f) :
    ∃ c, body.getLast? = some c ∧ c.isDigit = true := by
  obtain ⟨hy, hm, hd, htime⟩ := h
  cases htime with
  | midnight =>
    obtain ⟨c, hlast, hc⟩ := hd.last
    exact ⟨c, by simp [List.getLast?_append, List.getLast?_cons, hlast], hc⟩
  | minutes _ _ hminute =>
    obtain ⟨c, hlast, hc⟩ := hminute.last
    exact ⟨c, by simp [List.getLast?_append, List.getLast?_cons, hlast], hc⟩
  | seconds _ _ _ hsecond =>
    obtain ⟨c, hlast, hc⟩ := hsecond.last
    exact ⟨c, by simp [List.getLast?_append, List.getLast?_cons, hlast], hc⟩

theorem not_whitespace_of_numeral {c : Char} (h : c = '+' ∨ c.isDigit = true) :
    isWhitespace c = false := by
  rcases h with rfl | h
  · decide
  · simp only [Char.isDigit, Bool.and_eq_true, decide_eq_true_eq] at h
    have hlow : 48 ≤ c.toNat := h.1
    have hhigh : c.toNat ≤ 57 := h.2
    simp [isWhitespace]
    omega

/-- White space around a text has been taken off. -/
theorem DateText.trim {body : List Char} {f : Stamp} (h : DateText body f) :
    trim (body ++ ['Z']) = body ++ ['Z'] := by
  obtain ⟨hy, -, -, -⟩ := h
  obtain ⟨hne, hall⟩ := hy.chars
  obtain ⟨c, rest, rfl⟩ := List.exists_cons_of_ne_nil hne
  exact trim_eq_self rfl List.getLast?_concat
    (not_whitespace_of_numeral (hall c List.mem_cons_self)) (by decide)

/-- A date is not a number of seconds. -/
theorem DateText.notSeconds {body : List Char} {f : Stamp} (h : DateText body f) :
    parseU64 (body ++ ['Z']) = none := by
  obtain ⟨hy, -, -, -⟩ := h
  by_contra hsome
  obtain ⟨n, hn⟩ := Option.ne_none_iff_exists'.mp hsome
  exact (numeral_of_parseU64 hn).1.notMem (c := '-') (by decide) (by decide) (by simp)

theorem dateOf_text {y m d : List Char} {year month day : Nat} (hy : Numeral y year)
    (hm : Numeral m month) (hd : Numeral d day)
    (hmonth : 1 ≤ (month : Int) ∧ (month : Int) ≤ 12) (hday : 1 ≤ (day : Int) ∧ (day : Int) ≤ 31) :
    dateOf (y ++ '-' :: (m ++ '-' :: d)) =
      if (year : Int) < 2 ^ 63 then some ((year : Int), (month : Int), (day : Int)) else none := by
  have hsplit : (y ++ '-' :: (m ++ '-' :: d)).splitOn '-' = [y, m, d] := by
    rw [(hy.splitOn (by decide) (by decide) _).2, (hm.splitOn (by decide) (by decide) _).2,
      (hd.splitOn (by decide) (by decide) []).1]
  have hy := hy.parseI64
  have hm := hm.parseI64
  have hd := hd.parseI64
  rw [if_pos (by omega)] at hm hd
  by_cases hyear : (year : Int) < 2 ^ 63
  · rw [if_pos (by omega)] at hy
    simp only [dateOf, hsplit, hy, hm, hd, Option.bind_eq_bind, Option.bind_some]
    rw [if_pos ⟨hmonth, hday⟩, if_pos hyear]
  · rw [if_neg (by omega)] at hy
    simp only [dateOf, hsplit, hy, Option.bind_eq_bind, Option.bind_none, if_neg hyear]

/-- The fields of a text are those that it names, unless the year does not fit. -/
theorem fieldsOf_text {body : List Char} {f : Stamp} (h : DateText body f) (hrange : f.InRange) :
    fieldsOf body = if f.year < 2 ^ 63 then some f else none := by
  obtain @⟨y, m, d, time, year, month, day, hour, minute, second, hy, hm, hd, htime⟩ := h
  have hdate := dateOf_text hy hm hd hrange.month hrange.day
  have hin : ∀ c ∈ y ++ '-' :: (m ++ '-' :: d), inDate c = true := by
    intro c hc
    simp only [List.mem_append, List.mem_cons] at hc
    rcases hc with hc | rfl | hc | rfl | hc
    · exact numeral_inDate hy c hc
    · rfl
    · exact numeral_inDate hm c hc
    · rfl
    · exact numeral_inDate hd c hc
  have hbody : y ++ '-' :: (m ++ '-' :: (d ++ time)) = (y ++ '-' :: (m ++ '-' :: d)) ++ time := by
    simp
  obtain ⟨htake, hdrop, hpart⟩ :=
    timePart_of_text htime hrange.hour hrange.minute hrange.second
  rw [fieldsOf, hbody, List.takeWhile_append_of_pos hin, List.dropWhile_append_of_pos hin, htake,
    hdrop, hpart, List.append_nil, hdate]
  by_cases hyear : (year : Int) < 2 ^ 63
  · rw [if_pos hyear, if_pos hyear]
    rfl
  · rw [if_neg hyear, if_neg hyear]
    rfl

/-! ## What is written is read -/

theorem Stamp.dateText_text {f : Stamp} (hrange : f.InRange) :
    ∃ body, f.text = body ++ ['Z'] ∧ DateText body f := by
  obtain ⟨y, hy⟩ := Int.eq_ofNat_of_zero_le hrange.year
  obtain ⟨m, hm⟩ := Int.eq_ofNat_of_zero_le (Int.le_trans (by decide) hrange.month.1)
  obtain ⟨d, hd⟩ := Int.eq_ofNat_of_zero_le (Int.le_trans (by decide) hrange.day.1)
  obtain ⟨year, month, day, hour, minute, second⟩ := f
  simp only at hy hm hd
  subst hy hm hd
  refine ⟨_, ?_, .mk (numeral_padded 4 y) (numeral_padded 2 m) (numeral_padded 2 d)
    (.seconds (.inl rfl) (numeral_padded 2 hour) (numeral_padded 2 minute)
      (numeral_padded 2 second))⟩
  simp [Stamp.text, paddedInt_of_nonneg]

theorem stripZ_text {body : List Char} {f : Stamp} (h : DateText body f) :
    stripZ body = body ∧ stripZ (body ++ ['Z']) = body := by
  obtain ⟨c, hlast, hc⟩ := h.last
  refine ⟨?_, by simp [stripZ]⟩
  rw [stripZ, if_neg]
  intro hz
  rw [hlast] at hz
  cases Option.some.inj hz
  cases hc

/-- A day and a second of it are in range. -/
theorem Stamp.of_inRange {d : Day} (hyear : 0 ≤ d.year) {secs : Nat} (h : secs < 86400) :
    (Stamp.of d secs).InRange where
  year := hyear
  month := ⟨d.month_pos, d.month_le⟩
  day := ⟨d.day_pos, d.day_le.trans (monthLength_bounds _ _).2⟩
  hour := show secs / 3600 ≤ 23 by omega
  minute := show secs / 60 % 60 ≤ 59 by omega
  second := show secs % 60 ≤ 60 by omega

theorem Stamp.secs_of (d : Day) (secs : Nat) : (Stamp.of d secs).secs = secs := by
  show secs / 3600 * 3600 + secs / 60 % 60 * 60 + secs % 60 = secs
  omega

theorem Stamp.days_of (d : Day) (secs : Nat) : (Stamp.of d secs).days = d.number := rfl

/-- Every day from the epoch on is in a year from then on. -/
theorem year_iterate (n : Nat) : 1970 ≤ (Day.next^[n] Day.epoch).year := by
  induction n with
  | zero => decide
  | succ n ih =>
    rw [Function.iterate_succ_apply']
    have hnext := (Day.next^[n] Day.epoch).next_cases
    omega

theorem civil_inRange (unix : Nat) : (civil unix).InRange := by
  rw [civil_eq]
  have hyear := year_iterate (unix / 86400)
  exact Stamp.of_inRange (by omega) (Nat.mod_lt _ (by decide))

theorem instant_civil (o : Overflow) {unix : Nat} (h : unix < 2 ^ 64) :
    instant o (civil unix) = some (some unix) := by
  have hdays : (civil unix).days = (unix / 86400 : Nat) := by
    rw [civil_eq, Stamp.days_of, Day.number_iterate]
  have hsum : (civil unix).days.toNat * 86400 + (civil unix).secs = unix := by
    rw [hdays, Int.toNat_natCast, civil_eq, Stamp.secs_of]
    omega
  have hinstant := (civil_inRange unix).instant_of_fits o (by omega) (by rw [hsum]; exact h)
  rw [hsum] at hinstant
  exact hinstant

theorem civil_year_lt {unix : Nat} (h : unix < 2 ^ 64) : (civil unix).year < 2 ^ 54 := by
  have hrange := civil_inRange unix
  have hdays : (civil unix).days = (unix / 86400 : Nat) := by
    rw [civil_eq, Stamp.days_of, Day.number_iterate]
  have hbound : unix / 86400 < 2 ^ 48 := by omega
  exact hrange.year_lt (by omega)

theorem parse_iso8601 (o : Overflow) {unix : Nat} (h : unix < 2 ^ 64) :
    parseTimestamp o (iso8601 unix) = some (some unix) := by
  obtain ⟨body, htext, hbody⟩ := Stamp.dateText_text (civil_inRange unix)
  have hyear := civil_year_lt h
  have hfields := fieldsOf_text hbody (civil_inRange unix)
  rw [if_pos (by omega)] at hfields
  rw [parseTimestamp, iso8601, htext, hbody.trim]
  simp only [hbody.notSeconds, (stripZ_text hbody).2, hfields]
  exact instant_civil o h

/-- Every instant is written as the date that many days after the epoch and parsed back, later ones
have later dates, and the ledger writes the same. -/
theorem iso8601_spec (unix : Nat) (h : unix < 2 ^ 64) :
    (∀ o, parseTimestamp o (iso8601 unix) = some (some unix)) ∧
      iso8601 unix = (Stamp.of (Day.next^[unix / 86400] Day.epoch) (unix % 86400)).text ∧
      (∀ later, unix < later → (civil unix).key < (civil later).key) ∧
      Medium.iso8601 unix = iso8601 unix := by
  refine ⟨fun o => parse_iso8601 o h, ?_, fun later hlater => civil_strictMono hlater, rfl⟩
  rw [iso8601, civil_eq]

/-- The last instant of 64 bits. -/
theorem iso8601_spec_last :
    (∀ o, parseTimestamp o (iso8601 (2 ^ 64 - 1)) = some (some (2 ^ 64 - 1))) ∧
      iso8601 (2 ^ 64 - 1) =
        (Stamp.of (Day.next^[(2 ^ 64 - 1) / 86400] Day.epoch) ((2 ^ 64 - 1) % 86400)).text ∧
      (∀ later, 2 ^ 64 - 1 < later → (civil (2 ^ 64 - 1)).key < (civil later).key) ∧
      Medium.iso8601 (2 ^ 64 - 1) = iso8601 (2 ^ 64 - 1) :=
  iso8601_spec (2 ^ 64 - 1) (by decide)

end Common
end ZvolRescue
