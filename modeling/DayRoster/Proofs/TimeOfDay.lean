import DayRoster.Proofs.OrderedChoice
import DayRoster.Proofs.WeekYear

/-!
A time of day behind a date. A time within the day leaves the date as it is, 24 o'clock sharp stands
for the next day, and any other time does not exist. The zone of a time has to exist, and does not
matter otherwise.
-/

set_option autoImplicit false

namespace DayRoster

open Decimal (Writes)

namespace ClockTime

/-- The distance from universal time, if one is given, is below a day and its minutes are below an
hour. -/
def HasValidZone (time : ClockTime) : Prop := ∀ zone ∈ time.zone, zone.hour < 24 ∧ zone.minute < 60

def WithinDay (time : ClockTime) : Prop :=
  time.HasValidZone ∧ time.hour < 24 ∧ time.minute < 60 ∧ time.second < 60

def AtMidnight (time : ClockTime) : Prop :=
  time.HasValidZone ∧ time.hour = 24 ∧ time.minute = 0 ∧ time.second = 0 ∧
    ∀ c ∈ time.fraction, c = '0'

variable {time : ClockTime}

private theorem all_isValid_iff : time.zone.all ZoneOffset.isValid ↔ time.HasValidZone := by
  rw [Option.all_eq_true, HasValidZone]
  exact forall₂_congr fun zone _ => decide_eq_true_iff

private theorem isMidnight_iff (h : time.HasValidZone) : time.isMidnight ↔ time.AtMidnight := by
  rw [AtMidnight, isMidnight, decide_eq_true_iff, List.all_eq_true, and_iff_right h]
  simp only [beq_iff_eq]

private theorem isWithinDay_iff (h : time.HasValidZone) : time.isWithinDay ↔ time.WithinDay := by
  rw [WithinDay, isWithinDay, decide_eq_true_iff, and_iff_right h]

theorem AtMidnight.not_withinDay (h : time.AtMidnight) : ¬ time.WithinDay := by
  rintro ⟨-, hhour, -⟩
  obtain ⟨-, heq, -⟩ := h
  omega

theorem dayOffset?_of_withinDay (h : time.WithinDay) : time.dayOffset? = some 0 := by
  have hzone := all_isValid_iff.mpr h.1
  have hinside := (isWithinDay_iff h.1).mpr h
  have hsharp : ¬ time.isMidnight := fun hmidnight =>
    ((isMidnight_iff h.1).mp hmidnight).not_withinDay h
  rw [dayOffset?, hzone, if_neg (by decide), if_neg hsharp, if_pos hinside]

theorem dayOffset?_of_atMidnight (h : time.AtMidnight) : time.dayOffset? = some 1 := by
  have hzone := all_isValid_iff.mpr h.1
  rw [dayOffset?, hzone, if_neg (by decide), if_pos ((isMidnight_iff h.1).mpr h)]

theorem dayOffset?_eq_none (hinside : ¬ time.WithinDay) (hsharp : ¬ time.AtMidnight) :
    time.dayOffset? = none := by
  rw [dayOffset?]
  -- The zone is looked at first, so that the two conditions below may assume a valid one.
  split
  · rfl
  next hvalid =>
  have hzone : time.HasValidZone := by
    rw [← all_isValid_iff]
    simpa using hvalid
  rw [if_neg (mt (isMidnight_iff hzone).mp hsharp), if_neg (mt (isWithinDay_iff hzone).mp hinside)]

theorem eq_of_dayOffset?_eq_some {n : Nat} (h : time.dayOffset? = some n) :
    n = if time.isMidnight then 1 else 0 := by
  rw [dayOffset?] at h
  split_ifs at h ⊢ <;> exact (Option.some.inj h).symm

theorem dayOffset?_le {n : Nat} (h : time.dayOffset? = some n) : n ≤ 1 := by
  have hn := eq_of_dayOffset?_eq_some h
  split_ifs at hn <;> omega

/-- The zone decides whether a time exists, and not on which day it is. -/
theorem dayOffset?_with_zone {zone : Option ZoneOffset} {n k : Nat} (h : time.dayOffset? = some n)
    (h' : { time with zone }.dayOffset? = some k) : k = n := by
  have hn := eq_of_dayOffset?_eq_some h
  have hk := eq_of_dayOffset?_eq_some h'
  exact hk.trans hn.symm

end ClockTime

/-- No day that is written without a time comes after 2 January 10000, the last day of the last week
of the year 9999. -/
theorem DayName.Written.dayNumber_lt {name : DayName} {text : List Char} {d : Date}
    (h : name.Written text) (hdate : name.date? = some d) :
    d.dayNumber < Year.start 10000 + 2 := by
  have hfirst : Date.firstMonday 10000 = Year.start 10000 + 2 := by decide
  have of_year {y : Nat} (hyear : d.year = y) (hy : y < 10000) :
      d.dayNumber < Year.start 10000 + 2 := by
    have hlt : d.dayNumber < Year.start 10000 := Date.year_lt_iff.mp (by omega)
    omega
  have of_week {y w : Nat} {weekday : Weekday} (hweek : Date.ofIsoWeek? y w weekday = some d)
      (hy : y < 10000) : d.dayNumber < Year.start 10000 + 2 := by
    have hlt := Date.dayNumber_lt_of_ofIsoWeek? hweek
    have hmono : Date.firstMonday (y + 1) ≤ Date.firstMonday 10000 :=
      Date.firstMonday_mono (by omega)
    omega
  -- Every form but the week stays within its year.
  cases h with
  | dashed hys | plain hys => exact of_year (Date.ofYmd?_eq_some_iff.mp hdate).1 hys.lt
  | week hys | weekday hys => exact of_week hdate hys.lt
  | ordinal hys => exact of_year (Date.ofOrdinal?_eq_some_iff.mp hdate).1 hys.lt
  | month hys => exact of_year (Date.ofYmd?_eq_some_iff.mp hdate).1 hys.lt
  | @year y _ hys =>
    change Date.ofYmd? (y : Int) 1 1 = some d at hdate
    exact of_year (Date.ofYmd?_eq_some_iff.mp hdate).1 hys.lt

namespace Date

variable {name : DayName} {time : ClockTime} {text later : String} {d : Date}

theorem addDays?_zero (d : Date) : d.addDays? 0 = some d :=
  ofDayNumber?_eq_some_iff.mpr (Int.add_zero d.dayNumber).symm

private theorem exists_next (hd : d.dayNumber < Year.start 10000 + 2) :
    ∃ next, d.addDays? 1 = some next ∧ next.dayNumber = d.dayNumber + 1 := by
  have hlast : Year.start 10000 + 3 ≤ Year.start 262143 := by decide
  have hfirst := d.supported.1
  exact ⟨⟨d.dayNumber + 1, by omega⟩, ofDayNumber?_eq_some_iff.mpr rfl, rfl⟩

private theorem written_append (hname : name.Written text.toList)
    (htime : time.Written later.toList) :
    (Spelling.iso name (some time)).Written (text ++ later).toList := by
  rw [String.toList_append]
  exact .dayAndTime hname htime

private theorem date?_iso_of_parse (hname : name.Written text.toList)
    (hd : Date.parse text = .ok d) :
    (Spelling.iso name (some time)).date? =
      time.dayOffset?.bind fun offset : Nat => d.addDays? offset := by
  have hdate : name.date? = some d := (Spelling.Written.day hname).parse_eq_ok_iff.mp hd
  rw [Spelling.date?, hdate]
  rfl

private theorem parse_append_eq_ok_iff {e : Date} (hname : name.Written text.toList)
    (hd : Date.parse text = .ok d) (htime : time.Written later.toList) :
    Date.parse (text ++ later) = .ok e ↔
      ∃ n : Nat, time.dayOffset? = some n ∧ d.addDays? n = some e := by
  rw [(written_append hname htime).parse_eq_ok_iff, date?_iso_of_parse hname hd]
  exact Option.bind_eq_some_iff

/-- A time of day behind a date that was read leaves the day if it is a time of the day, gives the
next day if it is 24 o'clock sharp, and is refused otherwise. Times that differ in their zones only
are of the same day. -/
theorem parse_append_time (hname : name.Written text.toList) (hd : Date.parse text = .ok d)
    (htime : time.Written later.toList) :
    (time.WithinDay → Date.parse (text ++ later) = .ok d) ∧
    (time.AtMidnight →
      ∃ next : Date, next.dayNumber = d.dayNumber + 1 ∧ Date.parse (text ++ later) = .ok next) ∧
    (¬ time.WithinDay → ¬ time.AtMidnight →
      Date.parse (text ++ later) = .error (.impossible (text ++ later))) ∧
    ∀ (zone : Option ZoneOffset) (other : String) (e e' : Date),
      { time with zone }.Written other.toList → Date.parse (text ++ later) = .ok e →
        Date.parse (text ++ other) = .ok e' → e' = e := by
  have read {e : Date} : Date.parse (text ++ later) = .ok e ↔
      ∃ n : Nat, time.dayOffset? = some n ∧ d.addDays? n = some e :=
    parse_append_eq_ok_iff hname hd htime
  refine ⟨fun hinside => ?_, fun hsharp => ?_, fun hinside hsharp => ?_, ?_⟩
  · exact read.mpr ⟨0, time.dayOffset?_of_withinDay hinside, d.addDays?_zero⟩
  · have hlt := hname.dayNumber_lt ((Spelling.Written.day hname).parse_eq_ok_iff.mp hd)
    obtain ⟨next, hnext, hnumber⟩ := exists_next hlt
    exact ⟨next, hnumber, read.mpr ⟨1, time.dayOffset?_of_atMidnight hsharp, hnext⟩⟩
  · rw [(written_append hname htime).parse_eq_impossible_iff, date?_iso_of_parse hname hd,
      time.dayOffset?_eq_none hinside hsharp, Option.bind_none]
  · intro zone other e e' hother he he'
    obtain ⟨n, hn, hday⟩ := read.mp he
    obtain ⟨k, hk, hday'⟩ := (parse_append_eq_ok_iff hname hd hother).mp he'
    obtain rfl := ClockTime.dayOffset?_with_zone hn hk
    exact Option.some.inj (hday'.symm.trans hday)

/-- The end of the first day of a month, with zeros after the second and a zone. -/
theorem parse_month_end_of_day :
    let d : Date := ⟨Year.start 2020 + 121, by decide⟩
    let next : Date := ⟨Year.start 2020 + 122, by decide⟩
    let time : ClockTime := ⟨24, 0, 0, ['0', '0'], some ⟨2, 30⟩⟩
    (DayName.month 2020 5).Written "2020-05".toList ∧ Date.parse "2020-05" = .ok d ∧
      time.Written "T24:0000,00+0230".toList ∧
      Date.parse ("2020-05" ++ "T24:0000,00+0230") = .ok next := by
  intro d next time
  have hyear : Writes 4 2020 ['2', '0', '2', '0'] := ⟨rfl, List.all_eq_true.mp rfl, rfl⟩
  have hmonth : Writes 2 5 ['0', '5'] := ⟨rfl, List.all_eq_true.mp rfl, rfl⟩
  have hhour : Writes 2 24 ['2', '4'] := ⟨rfl, List.all_eq_true.mp rfl, rfl⟩
  have hzero : Writes 2 0 ['0', '0'] := ⟨rfl, List.all_eq_true.mp rfl, rfl⟩
  have hname : (DayName.month 2020 5).Written "2020-05".toList := .month hyear hmonth
  have hd : Date.parse "2020-05" = .ok d := by
    rw [parse_of_written (.day hname)]
    rfl
  have htwo : Writes 2 2 ['0', '2'] := ⟨rfl, List.all_eq_true.mp rfl, rfl⟩
  have hthirty : Writes 2 30 ['3', '0'] := ⟨rfl, List.all_eq_true.mp rfl, rfl⟩
  have hzone : ZoneOffset.Written ⟨2, 30⟩ ['+', '0', '2', '3', '0'] :=
    .minutes (.inl rfl) htwo (.inl rfl) hthirty
  have htime : time.Written "T24:0000,00+0230".toList :=
    .intro (.inl rfl) hhour
      (.present (.inr rfl) hzero
        (.fraction (.inl rfl) hzero (.inr rfl) (List.cons_ne_nil _ _) hzero.isDigit))
      (.present hzone)
  have hzeros : ∀ c ∈ time.fraction, c = '0' := by simp [time]
  have hvalid : time.HasValidZone := by
    rintro _ ⟨⟩
    decide
  have hsharp : time.AtMidnight := ⟨hvalid, rfl, rfl, rfl, hzeros⟩
  obtain ⟨found, hnumber, hparse⟩ := (parse_append_time hname hd htime).2.1 hsharp
  have hfound : found = next := Date.ext hnumber
  exact ⟨hname, hd, htime, hfound ▸ hparse⟩

end Date

end DayRoster
