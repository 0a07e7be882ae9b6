import ZvolRescue.Common.Timestamp

/-!
# What the text of a date is taken for

The fields of a date are checked one by one.  That leaves a day that its month does not have, a
sixtieth second, whatever stands behind the seconds, and years beyond the last instant; without
these the text is taken for the instant that it names (`parsed_truly_iff`).
-/

namespace ZvolRescue
namespace Common

open Lib Lib.Calendar

/-! ## The fields that are read -/

theorem text_of_dateOf {date : List Char} {year month day : Int}
    (h : dateOf date = some (year, month, day)) :
    ∃ y m d, ∃ ny nm nd : Nat, date = y ++ '-' :: (m ++ '-' :: d) ∧ Numeral y ny ∧ Numeral m nm ∧
      Numeral d nd ∧ year = ny ∧ month = nm ∧ day = nd ∧ (1 ≤ month ∧ month ≤ 12) ∧
      1 ≤ day ∧ day ≤ 31 := by
  have hjoin : ['-'].intercalate (date.splitOn '-') = date := List.intercalate_splitOn '-'
  have hminus := notMem_of_mem_splitOn '-' date
  unfold dateOf at h
  split at h
  case h_1 y m d hsplit =>
    rw [hsplit] at hjoin hminus
    simp only [Option.bind_eq_bind, Option.bind_eq_some_iff, Option.ite_none_right_eq_some,
      Option.some.injEq, Prod.mk.injEq] at h
    obtain ⟨vy, hy, vm, hm, vd, hd, ⟨hmonth, hday⟩, rfl, rfl, rfl⟩ := h
    obtain ⟨ny, rfl, hny, -⟩ := numeral_of_parseI64 (hminus y (by simp)) hy
    obtain ⟨nm, rfl, hnm, -⟩ := numeral_of_parseI64 (hminus m (by simp)) hm
    obtain ⟨nd, rfl, hnd, -⟩ := numeral_of_parseI64 (hminus d (by simp)) hd
    refine ⟨y, m, d, ny, nm, nd, ?_, hny, hnm, hnd, rfl, rfl, rfl, hmonth, hday⟩
    rw [← hjoin]
    simp [List.intercalate]
  case h_2 => cases h

theorem text_of_timeOf {c : Char} (hc : c = 'T' ∨ c = ' ') {time : List Char} {h m s : Nat}
    (htime : timeOf time = some (h, m, s)) :
    (h ≤ 23 ∧ m ≤ 59 ∧ s ≤ 60) ∧ (time.count ':' ≤ 2 → TimeText (c :: time) h m s) := by
  have hjoin : [':'].intercalate (time.splitOn ':') = time := List.intercalate_splitOn ':'
  unfold timeOf at htime
  split at htime
  case h_1 hours minutes rest hsplit =>
    rw [hsplit] at hjoin
    simp only [Option.bind_eq_bind, Option.bind_eq_some_iff, Option.ite_none_left_eq_some,
      Option.some.injEq, Prod.mk.injEq] at htime
    obtain ⟨vh, hh, vm, hm, vs, hs, hrange, rfl, rfl, rfl⟩ := htime
    refine ⟨by omega, fun hcount => ?_⟩
    have hh := (numeral_of_parseU64 hh).1
    have hm := (numeral_of_parseU64 hm).1
    cases rest with
    | nil =>
      obtain rfl : 0 = vs := Option.some.inj hs
      have htext : time = hours ++ ':' :: minutes := by
        rw [← hjoin]
        simp [List.intercalate]
      rw [htext]
      exact .minutes hc hh hm
    | cons secs rest =>
      have hread : parseU64 secs = some vs := hs
      have hsecs := (numeral_of_parseU64 hread).1
      cases rest with
      | nil =>
        have htext : time = hours ++ ':' :: (minutes ++ ':' :: secs) := by
          rw [← hjoin]
          simp [List.intercalate]
        rw [htext]
        exact .seconds hc hh hm hsecs
      | cons more rest =>
        -- One more part has one more colon before it.
        rw [← hjoin] at hcount
        simp [List.intercalate, List.count_append] at hcount
        omega
  case h_2 => cases htime

theorem text_of_timePart {time : List Char} {h m s : Nat} (htime : timePart time = some (h, m, s))
    (hsep : ∀ c, time.head? = some c → c = 'T' ∨ c = ' ') :
    (h ≤ 23 ∧ m ≤ 59 ∧ s ≤ 60) ∧ (time.count ':' ≤ 2 → TimeText time h m s) := by
  cases time with
  | nil =>
    simp only [timePart, Option.some.injEq, Prod.mk.injEq] at htime
    obtain ⟨rfl, rfl, rfl⟩ := htime
    exact ⟨by decide, fun _ => .midnight⟩
  | cons c time =>
    obtain ⟨hrange, htext⟩ := text_of_timeOf (hsep c rfl) htime
    refine ⟨hrange, fun hcount => htext ?_⟩
    exact Nat.le_trans (List.count_le_count_cons) hcount

/-- The fields are those of the text, unless it goes on behind the seconds. -/
theorem text_of_fieldsOf {s : List Char} {f : Stamp} (h : fieldsOf s = some f) :
    f.InRange ∧ (s.count ':' ≤ 2 → DateText s f) := by
  have hsplit : s.takeWhile inDate ++ s.dropWhile inDate = s := List.takeWhile_append_dropWhile
  have hsep : ∀ c, (s.dropWhile inDate).head? = some c → c = 'T' ∨ c = ' ' := by
    intro c hc
    have hout := List.head?_dropWhile_not inDate s
    rw [hc] at hout
    exact or_iff_not_imp_left.mpr (by simpa [inDate, Bool.and_eq_false_iff] using hout)
  simp only [fieldsOf, Option.bind_eq_bind, Option.bind_eq_some_iff, Option.some.injEq] at h
  obtain ⟨⟨year, month, day⟩, hdate, ⟨hour, minute, second⟩, htime, rfl⟩ := h
  obtain ⟨y, m, d, ny, nm, nd, hjoin, hny, hnm, hnd, rfl, rfl, rfl, hmonth, hday⟩ :=
    text_of_dateOf hdate
  obtain ⟨⟨hhour, hminute, hsecond⟩, htext⟩ := text_of_timePart htime hsep
  refine ⟨⟨Int.natCast_nonneg ny, hmonth, hday, hhour, hminute, hsecond⟩, fun hcount => ?_⟩
  have hcount' : (s.dropWhile inDate).count ':' ≤ 2 := by
    rw [← hsplit, List.count_append] at hcount
    omega
  have hbody := DateText.mk hny hnm hnd (htext hcount')
  rw [hjoin] at hsplit
  rw [← hsplit]
  simpa using hbody

/-! ## What a text is taken for -/

/-- A text gives the instant of a day that exists and a second of it: it names these, they are what
the instant is shown as, and no arithmetic leaves its range. -/
def GivesTruly (s : List Char) (unix : Nat) : Prop :=
  ∃ (d : Day) (secs : Nat), secs < 86400 ∧ Names s (Stamp.of d secs) ∧
    iso8601 unix = (Stamp.of d secs).text ∧ parseTimestamp checked s = some (some unix)

/-- The second that the last instant of 64 bits is in. -/
def latest : Stamp :=
  { year := 584554051223, month := 11, day := 9, hour := 7, minute := 0, second := 15 }

theorem civil_last : civil (2 ^ 64 - 1) = latest := by decide

/-- The fields of a second of a day that exists. -/
theorem of_secs {f : Stamp} (hrange : f.InRange) (hsecond : f.second ≤ 59) {d : Day}
    (hd : d.year = f.year ∧ d.month = f.month ∧ d.day = f.day) :
    f.secs < 86400 ∧ Stamp.of d f.secs = f := by
  have hhour := hrange.hour
  have hminute := hrange.minute
  obtain ⟨hy, hm, hday⟩ := hd
  unfold Stamp.secs
  refine ⟨by omega, ?_⟩
  cases f
  simp only [Stamp.of, Stamp.mk.injEq] at *
  omega

/-- The instant of a day that exists and of a second of it, where it is one of 64 bits. -/
theorem civil_of_day {d : Day} {secs unix : Nat} (hsecs : secs < 86400) (hnumber : 0 ≤ d.number)
    (hunix : unix = d.number.toNat * 86400 + secs) : civil unix = Stamp.of d secs := by
  have hdiv : d.number = (unix / 86400 : Nat) := by omega
  have hmod : unix % 86400 = secs := by omega
  rw [civil_of_number hdiv, hmod]

theorem key_le_latest_iff {unix : Nat} : (civil unix).key ≤ latest.key ↔ unix < 2 ^ 64 := by
  rw [← civil_last]
  refine ⟨fun h => ?_, fun h => ?_⟩
  · by_contra hge
    exact absurd h (not_le_of_gt (civil_strictMono (by omega)))
  · rcases Nat.lt_or_eq_of_le (Nat.le_sub_one_of_lt h) with hlt | heq
    · exact le_of_lt (civil_strictMono hlt)
    · rw [heq]

/-- What a text names is what its fields are read as. -/
theorem eq_of_names {s : List Char} {f f' : Stamp} (h : Names s f)
    (hfields : fieldsOf (stripZ (trim s)) = some f') (hrange : f.InRange) : f' = f := by
  have hbody : ∃ body, stripZ (trim s) = body ∧ DateText body f := by
    rcases h with htext | ⟨body, htrim, htext⟩
    · exact ⟨_, (stripZ_text htext).1, htext⟩
    · exact ⟨body, by rw [htrim, (stripZ_text htext).2], htext⟩
  obtain ⟨body, hstrip, htext⟩ := hbody
  rw [hstrip, fieldsOf_text htext hrange] at hfields
  split at hfields
  · exact (Option.some.inj hfields).symm
  · cases hfields

theorem DateText.year_nonneg {body : List Char} {f : Stamp} (h : DateText body f) : 0 ≤ f.year := by
  obtain ⟨-, -, -, -⟩ := h
  exact Int.natCast_nonneg _

theorem Names.year_nonneg {s : List Char} {f : Stamp} (h : Names s f) : 0 ≤ f.year := by
  rcases h with htext | ⟨body, -, htext⟩
  · exact htext.year_nonneg
  · exact htext.year_nonneg

theorem count_numeral {w : List Char} {n : Nat} (h : Numeral w n) : w.count ':' = 0 :=
  List.count_eq_zero.mpr (h.notMem (by decide) (by decide))

theorem TimeText.count_le {time : List Char} {h m s : Nat} (htime : TimeText time h m s) :
    time.count ':' ≤ 2 := by
  cases htime with
  | midnight => decide
  | minutes hc hhour hminute =>
    rcases hc with rfl | rfl
    all_goals simp [List.count_append, count_numeral hhour, count_numeral hminute]
  | seconds hc hhour hminute hsecond =>
    rcases hc with rfl | rfl
    all_goals
      simp [List.count_append, count_numeral hhour, count_numeral hminute,
        count_numeral hsecond]

/-- At most two colons stand in a text. -/
theorem DateText.count_le {body : List Char} {f : Stamp} (h : DateText body f) :
    body.count ':' ≤ 2 := by
  obtain ⟨hy, hm, hd, htime⟩ := h
  have htime := htime.count_le
  simp [List.count_append, count_numeral hy, count_numeral hm, count_numeral hd]
  exact htime

theorem Names.count_le {s : List Char} {f : Stamp} (h : Names s f) : (trim s).count ':' ≤ 2 := by
  rcases h with htext | ⟨body, htrim, htext⟩
  · exact htext.count_le
  · rw [htrim, List.count_append]
    exact htext.count_le

/-- The fields that are read are what a text names, if no more stands behind them. -/
theorem names_of_fieldsOf {s : List Char} {f : Stamp}
    (hfields : fieldsOf (stripZ (trim s)) = some f) (hcount : (trim s).count ':' ≤ 2) :
    Names s f := by
  obtain ⟨-, htext⟩ := text_of_fieldsOf hfields
  unfold stripZ at htext
  split at htext
  · rename_i hlast
    obtain ⟨body, hbody⟩ := List.getLast?_eq_some_iff.mp hlast
    rw [hbody, List.dropLast_concat] at htext
    refine .inr ⟨body, hbody, htext ?_⟩
    rw [hbody, List.count_append] at hcount
    omega
  · exact .inl (htext hcount)

theorem fields_of_parse {o : Overflow} {s : List Char} {unix : Nat}
    (hform : parseU64 (trim s) = none) (h : parseTimestamp o s = some (some unix)) :
    ∃ f, fieldsOf (stripZ (trim s)) = some f := by
  cases hfields : fieldsOf (stripZ (trim s)) with
  | none => simp [parseTimestamp, hform, hfields] at h
  | some f => exact ⟨f, rfl⟩

theorem instant_of_parse {o : Overflow} {s : List Char} {f : Stamp} {unix : Nat}
    (hform : parseU64 (trim s) = none) (hfields : fieldsOf (stripZ (trim s)) = some f)
    (h : parseTimestamp o s = some (some unix)) : instant o f = some (some unix) := by
  simpa only [parseTimestamp, hform, hfields] using h

theorem year_le_of_key {f : Stamp} (h : f.key ≤ latest.key) : f.year < 2 ^ 54 := by
  have hyear : f.year ≤ latest.year := by
    rcases Prod.Lex.toLex_le_toLex.mp h with hlt | ⟨heq, -⟩
    · exact Int.le_of_lt hlt
    · exact Int.le_of_eq heq
  exact Int.lt_of_le_of_lt hyear (by decide)

/-- A day before the epoch gives no instant. -/
theorem days_nonneg_of_instant {o : Overflow} {f : Stamp} {unix : Nat} (hrange : f.InRange)
    (hyear : f.year < 2 ^ 54) (h : instant o f = some (some unix)) : 0 ≤ f.days := by
  by_contra hneg
  rw [instant, hrange.daysOf_of_fits o hyear, Option.bind_eq_bind, Option.bind_some,
    if_pos (by omega)] at h
  cases h

/-- The text of a date that is accepted gives the instant it names if and only if its month has that
day, its second is below sixty, the instant is one of 64 bits, and nothing is behind the seconds. -/
theorem parsed_truly_iff {s : List Char} {unix : Nat} (hform : parseU64 (trim s) = none)
    (h : parseTimestamp wrapping s = some (some unix)) :
    GivesTruly s unix ↔
      ∃ f, fieldsOf (stripZ (trim s)) = some f ∧ f.day ≤ monthLength f.year f.month ∧
        f.second ≤ 59 ∧ f.key ≤ latest.key ∧ (trim s).count ':' ≤ 2 := by
  obtain ⟨f, hfields⟩ := fields_of_parse hform h
  have hinstant := instant_of_parse hform hfields h
  have hrange := (text_of_fieldsOf hfields).1
  constructor
  · rintro ⟨d, secs, hsecs, hnames, -, hchecked⟩
    obtain rfl := eq_of_names hnames hfields (Stamp.of_inRange hnames.year_nonneg hsecs)
    obtain ⟨hdays, hunix, hlt⟩ := hrange.instant_checked (instant_of_parse hform hfields hchecked)
    rw [Stamp.secs_of, Stamp.days_of] at hunix
    rw [Stamp.days_of] at hdays
    refine ⟨_, hfields, d.day_le, ?_, ?_, hnames.count_le⟩
    · exact Nat.lt_succ_iff.mp (Nat.mod_lt _ (by decide))
    · rw [← civil_of_day hsecs hdays hunix]
      exact key_le_latest_iff.mpr hlt
  · rintro ⟨f', hf', hday, hsecond, hkey, hcount⟩
    obtain rfl := Option.some.inj (hf'.symm.trans hfields)
    let d : Day := ⟨f'.year, f'.month, f'.day, hrange.month.1, hrange.month.2, hrange.day.1, hday⟩
    obtain ⟨hsecs, hof⟩ := of_secs hrange hsecond (d := d) ⟨rfl, rfl, rfl⟩
    have hnumber : 0 ≤ d.number := days_nonneg_of_instant hrange (year_le_of_key hkey) hinstant
    have hcivil := civil_of_day hsecs hnumber rfl
    rw [hof] at hcivil
    rw [← hcivil, key_le_latest_iff] at hkey
    have hfits := fun o => hrange.instant_of_fits o hnumber hkey
    have hunix := hinstant.symm.trans (hfits wrapping)
    simp only [Option.some.injEq] at hunix
    subst hunix
    refine ⟨d, f'.secs, hsecs, ?_, ?_, ?_⟩
    · rw [hof]
      exact names_of_fieldsOf hfields hcount
    · rw [hof, iso8601]
      exact congrArg Stamp.text hcivil
    · simp only [parseTimestamp, hform, hfields]
      exact hfits checked

/-- The fourteenth of November 2023, twenty seconds after 22:13. -/
theorem parsed_truly_iff_autumn :
    GivesTruly "2023-11-14T22:13:20Z".toList 1700000000 ↔
      ∃ f, fieldsOf (stripZ (trim "2023-11-14T22:13:20Z".toList)) = some f ∧
        f.day ≤ monthLength f.year f.month ∧ f.second ≤ 59 ∧ f.key ≤ latest.key ∧
        (trim "2023-11-14T22:13:20Z".toList).count ':' ≤ 2 :=
  parsed_truly_iff (by decide) (by decide)

/-- The last of February, three days on, is taken for the third of March. -/
theorem third_of_march :
    ¬ ∀ s unix, parseU64 (trim s) = none → parseTimestamp wrapping s = some (some unix) →
      GivesTruly s unix := by
  intro h
  have hfields : fieldsOf (stripZ (trim "2023-02-31".toList)) =
      some { year := 2023, month := 2, day := 31, hour := 0, minute := 0, second := 0 } := by decide
  obtain ⟨d, secs, hsecs, hnames, -⟩ :=
    h "2023-02-31".toList 1677801600 (by decide) (by decide)
  have hday := eq_of_names hnames hfields (Stamp.of_inRange hnames.year_nonneg hsecs)
  simp only [Stamp.of, Stamp.mk.injEq] at hday
  obtain ⟨hyear, hmonth, hday, -⟩ := hday
  have hle := d.day_le
  rw [← hyear, ← hmonth, ← hday] at hle
  exact absurd hle (by decide)

end Common
end ZvolRescue
