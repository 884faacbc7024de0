import DayRoster.Proofs.DayForms

/-!
The ordered choice of the reader loses nothing. A text that is written in one of the forms is read,
although a form that was taken is not given back, and what it is read as stands for the same day as
any other way to read it without an order.
-/

set_option autoImplicit false

namespace DayRoster

open Decimal (Writes WritesShort)
open Text (MayBe)

namespace Reader

variable {text rest : List Char}

/-- What may stand behind the numbers of a time of day without being taken for a part of it. -/
def EndsClock (rest : List Char) : Prop :=
  ∀ c ∈ rest.head?, c.isDigit = false ∧ c ≠ ':' ∧ c ≠ '.' ∧ c ≠ ','

private theorem run_digitRun_append {ds : List Char} (hne : ds ≠ []) (hds : ∀ c ∈ ds, c.isDigit)
    (hrest : ∀ c ∈ rest.head?, c.isDigit = false) : digitRun.run (ds ++ rest) = some (ds, rest) := by
  have hstop : rest.takeWhile Char.isDigit = [] ∧ rest.dropWhile Char.isDigit = rest := by
    cases rest with
    | nil => exact ⟨rfl, rfl⟩
    | cons c rest =>
      have hc : ¬ c.isDigit := Bool.eq_false_iff.mp (hrest c rfl)
      exact ⟨List.takeWhile_cons_of_neg hc, List.dropWhile_cons_of_neg hc⟩
  have htake : (ds ++ rest).takeWhile Char.isDigit = ds := by
    rw [List.takeWhile_append_of_pos hds, hstop.1, List.append_nil]
  have hdrop : (ds ++ rest).dropWhile Char.isDigit = rest := by
    rw [List.dropWhile_append_of_pos hds, hstop.2]
  obtain ⟨d, others, rfl⟩ := List.exists_cons_of_ne_nil hne
  rw [StateT.run]
  simp only [digitRun, htake, hdrop]

private theorem run_pair_or_colon_eq_none {β : Type} (hrest : EndsClock rest) (f : Nat → Reader β) :
    (do let _ ← optional (char ':'); let n ← pair; f n).run rest = none := by
  refine (run_mayBe_bind (.inl rfl) (fun c hc => (hrest c hc).2.1) _).trans ?_
  exact run_bind_eq_none (run_number_succ_eq_none (fun c hc => (hrest c hc).1) 1) f

private theorem run_seconds_of_written {s : Nat} {digits front : List Char}
    (h : ClockTime.SecondsWritten s digits front) (hrest : EndsClock rest) :
    (seconds <|> pure (0, [])).run (front ++ rest) = some ((s, digits), rest) := by
  rw [run_orElse]
  cases h with
  | absent =>
    rw [seconds, List.nil_append, run_pair_or_colon_eq_none hrest]
    rfl
  | whole hcolon hss =>
    have hfraction : fraction.run rest = none := by
      refine run_bind_eq_none (run_satisfying_eq_none fun c hc => ?_) _
      simp [hrest c hc]
    rw [seconds, List.append_assoc, run_mayBe_bind hcolon (hss.head_ne rfl rest), pair,
      run_number_bind hss, StateT.run_bind, run_orElse, hfraction]
    rfl
  | fraction hcolon hss hpoint hne hdigits =>
    rw [seconds, List.append_assoc, List.append_assoc, List.cons_append,
      run_mayBe_bind hcolon (hss.head_ne rfl _), pair, run_number_bind hss, StateT.run_bind,
      run_orElse, fraction, run_satisfying_bind (decide_eq_true hpoint),
      run_digitRun_append hne hdigits fun c hc => (hrest c hc).1]
    rfl

private theorem run_minutes_of_written {m s : Nat} {digits front : List Char}
    (h : ClockTime.MinutesWritten m s digits front) (hrest : EndsClock rest) :
    (minutes <|> pure (0, 0, [])).run (front ++ rest) = some ((m, s, digits), rest) := by
  rw [run_orElse]
  cases h with
  | absent =>
    rw [minutes, List.nil_append, run_pair_or_colon_eq_none hrest]
    rfl
  | present hcolon hms hseconds =>
    rw [minutes, List.append_assoc, List.append_assoc, run_mayBe_bind hcolon (hms.head_ne rfl _),
      pair, run_number_bind hms, StateT.run_bind, run_seconds_of_written hseconds hrest]
    rfl

private theorem run_zoneOffset_of_written {zone : ZoneOffset} {zs : List Char}
    (h : zone.Written zs) : zoneOffset.run zs = some (zone, []) := by
  rw [zoneOffset, run_orElse]
  cases h with
  | utc => rfl
  | @hours h hs sign hsign hhs =>
    have hne : sign ≠ 'Z' := by rcases hsign with rfl | rfl <;> decide
    have hhours := run_number_of_writes hhs []
    rw [List.append_nil] at hhours
    rw [run_bind_eq_none (run_char_cons_eq_none hne), run_satisfying_bind (decide_eq_true hsign),
      StateT.run_bind, pair, hhours]
    rfl
  | @minutes h m hs colon ms sign hsign hhs hcolon hms =>
    have hne : sign ≠ 'Z' := by rcases hsign with rfl | rfl <;> decide
    have hminutes := run_number_of_writes hms []
    have hhead := hms.head_ne (c := ':') rfl []
    rw [List.append_nil] at hminutes hhead
    rw [run_bind_eq_none (run_char_cons_eq_none hne), run_satisfying_bind (decide_eq_true hsign),
      pair, run_number_bind hhs, StateT.run_bind, run_orElse, run_mayBe_bind hcolon hhead, hminutes]
    rfl

private theorem run_zone_of_mayBeWritten {zone : Option ZoneOffset} {zs : List Char}
    (h : ZoneOffset.MayBeWritten zone zs) :
    EndsClock zs ∧ (optional zoneOffset).run zs = some (zone, []) := by
  cases h with
  | absent => exact ⟨by simp [EndsClock], rfl⟩
  | present h =>
    refine ⟨?_, run_optional_of_eq_some (run_zoneOffset_of_written h)⟩
    intro c hc
    cases h with
    | utc =>
      obtain rfl := Option.some.inj hc
      decide
    | hours hsign =>
      obtain rfl := Option.some.inj hc
      rcases hsign with rfl | rfl <;> decide
    | minutes hsign =>
      obtain rfl := Option.some.inj hc
      rcases hsign with rfl | rfl <;> decide

private theorem run_clockTime_of_written {time : ClockTime} {ts : List Char}
    (h : time.Written ts) : clockTime.run ts = some (time, []) := by
  obtain ⟨hletter, hhs, hminutes, hzone⟩ := h
  obtain ⟨hends, hzone⟩ := run_zone_of_mayBeWritten hzone
  rw [clockTime, run_satisfying_bind (decide_eq_true hletter), pair, run_number_bind hhs,
    run_bind_of_eq_some (run_minutes_of_written hminutes hends)]
  exact run_bind_of_eq_some hzone _

private theorem run_isoDate_of_isoDay {text later : List Char} {name : DayName}
    {time : Option ClockTime} (hday : isoDay.run text = some (name, later))
    (htime : (optional clockTime).run later = some (time, [])) :
    isoDate.run text = some (.iso name time, []) := by
  rw [isoDate, run_bind_of_eq_some hday, run_bind_of_eq_some htime]
  rfl

private theorem run_isoDate_of_later_eq_none {text later : List Char} {name : DayName}
    (hday : isoDay.run text = some (name, later)) (hne : later ≠ [])
    (hlater : ∀ c ∈ later.head?, c ≠ 'T' ∧ c ≠ 't') : isoDate.run text = none := by
  have hclock : clockTime.run later = none := by
    refine run_bind_eq_none (run_satisfying_eq_none fun c hc => ?_) _
    simp [hlater c hc]
  obtain ⟨c, others, rfl⟩ := List.exists_cons_of_ne_nil hne
  rw [isoDate, run_bind_of_eq_some hday, run_bind_of_eq_some (run_optional_of_eq_none hclock)]
  rfl

private theorem run_isoDate_of_day {text : List Char} {name : DayName} (h : name.Written text) :
    isoDate.run text = some (.iso name none, []) := by
  have hends : EndsDay [] := by simp [EndsDay]
  have hday := run_isoDay_of_written h hends
  rw [List.append_nil] at hday
  exact run_isoDate_of_isoDay hday rfl

private theorem run_isoDate_of_dayAndTime {text later : List Char} {name : DayName}
    {time : ClockTime} (hname : name.Written text) (htime : time.Written later) :
    isoDate.run (text ++ later) = some (.iso name (some time), []) := by
  have hends : EndsDay later := by
    intro c hc
    cases htime with
    | intro hletter =>
      obtain rfl := Option.some.inj hc
      rcases hletter with rfl | rfl <;> decide
  have hclock := run_optional_of_eq_some (run_clockTime_of_written htime)
  exact run_isoDate_of_isoDay (run_isoDay_of_written hname hends) hclock

section

variable {y m d : Nat} {ys ms ds : List Char}

private theorem run_isoDate_slashed_eq_none (hys : Writes 4 y ys) :
    isoDate.run (ys ++ '/' :: rest) = none := by
  have hends : EndsDay ('/' :: rest) := by
    intro c hc
    obtain rfl := Option.some.inj hc
    decide
  refine run_isoDate_of_later_eq_none (run_isoDay_year_of_endsDay hys hends) (by simp) ?_
  simp

private theorem run_isoDate_compact_eq_none (hys : Writes 4 y ys) (hms : Writes 2 m ms) :
    isoDate.run (ys ++ ms) = none := by
  have hne : ms ≠ [] := by
    rintro rfl
    exact nomatch hms.length_eq
  have hhead : ∀ {c : Char}, c.isDigit = false → ∀ d ∈ ms.head?, d ≠ c := by
    intro c hc
    have hhead := hms.head_ne hc []
    rwa [List.append_nil] at hhead
  exact run_isoDate_of_later_eq_none (run_isoDay_two_digits hys hms) hne
    fun c hc => ⟨hhead rfl c hc, hhead rfl c hc⟩

private theorem run_isoDate_shortMonth_eq_none (hys : Writes 4 y ys) (hms : Writes 1 m ms) :
    isoDate.run (ys ++ '-' :: (ms ++ '-' :: rest)) = none :=
  run_isoDate_of_later_eq_none (run_isoDay_dash_digit hys hms) (by simp) (by simp)

private theorem run_isoDate_shortDay_eq_none (hys : Writes 4 y ys) (hms : Writes 2 m ms)
    (hds : Writes 1 d ds) : isoDate.run (ys ++ '-' :: (ms ++ '-' :: ds)) = none :=
  run_isoDate_of_later_eq_none (run_isoDay_month_dash_digit hys hms hds) (by simp) (by simp)

private theorem run_isoDate_monthFirst_eq_none (hms : WritesShort m ms) :
    isoDate.run (ms ++ '/' :: rest) = none := by
  have hlength : ms.length < 4 := by
    rcases hms with h | h <;> rw [h.length_eq] <;> decide
  exact run_isoDate_of_year_eq_none (run_number_eq_none hlength (by simp))

/-! The outdated forms do not take each other's texts. -/

private theorem run_monthFirstDate_eq_none (hys : Writes 4 y ys) :
    monthFirstDate.run (ys ++ rest) = none := by
  -- Half of the year is taken for a month, and the other half is no slash.
  obtain ⟨m, ms, k, ks, hms, hks, rfl⟩ := hys.exists_append 2 2
  have hshort : shortNumber.run (ms ++ (ks ++ rest)) = some (m, ks ++ rest) := by
    rw [shortNumber, run_orElse, run_number_of_writes hms]
    rfl
  rw [List.append_assoc, monthFirstDate, run_bind_of_eq_some hshort]
  exact run_bind_eq_none (run_char_eq_none (hks.head_ne rfl rest)) _

private theorem run_shortNumber_bind {β : Type} {n : Nat} (h : WritesShort n ds)
    (hrest : ∀ c ∈ rest.head?, c.isDigit = false) (f : Nat → Reader β) :
    (shortNumber >>= f).run (ds ++ rest) = (f n).run rest :=
  run_bind_of_eq_some (run_shortNumber_of_writes h hrest) f

private theorem run_shortNumber_bind_of_end {β : Type} {n : Nat} (h : WritesShort n ds)
    (f : Nat → Reader β) : (shortNumber >>= f).run ds = (f n).run [] := by
  have hend : ∀ c ∈ ([] : List Char).head?, c.isDigit = false := by simp
  have hrun := run_shortNumber_bind h hend f
  rwa [List.append_nil] at hrun

private theorem run_separated {c : Char} (hc : c.isDigit = false) (hys : Writes 4 y ys)
    (hms : WritesShort m ms) (hds : WritesShort d ds) :
    (do
      let y ← year
      let _ ← char c
      let m ← shortNumber
      let _ ← char c
      let d ← shortNumber
      pure (.outdated y m d) : Reader Spelling).run (ys ++ c :: (ms ++ c :: ds)) =
      some (.outdated y m d, []) := by
  have hend : ∀ d ∈ (c :: ds).head?, d.isDigit = false := by simpa using hc
  rw [year, run_number_bind hys, run_char_bind, run_shortNumber_bind hms hend, run_char_bind,
    run_shortNumber_bind_of_end hds]
  rfl

private theorem run_outdatedDate_slashed (hys : Writes 4 y ys) (hms : WritesShort m ms)
    (hds : WritesShort d ds) :
    outdatedDate.run (ys ++ '/' :: (ms ++ '/' :: ds)) = some (.outdated y m d, []) := by
  have hdate : slashedDate.run (ys ++ '/' :: (ms ++ '/' :: ds)) = some (.outdated y m d, []) :=
    run_separated rfl hys hms hds
  rw [outdatedDate, StateT.run_bind, run_orElse, hdate]
  rfl

private theorem run_outdatedDate_monthFirst (hms : WritesShort m ms) (hds : WritesShort d ds)
    (hys : Writes 4 y ys) :
    outdatedDate.run (ms ++ '/' :: (ds ++ '/' :: ys)) = some (.outdated y m d, []) := by
  have hlength : ms.length < 4 := by
    rcases hms with h | h <;> rw [h.length_eq] <;> decide
  have hslashed : slashedDate.run (ms ++ '/' :: (ds ++ '/' :: ys)) = none :=
    run_bind_eq_none (run_number_eq_none hlength (by simp)) _
  have hyear := run_number_of_writes hys []
  have hdate : monthFirstDate.run (ms ++ '/' :: (ds ++ '/' :: ys)) =
      some (.outdated y m d, []) := by
    rw [List.append_nil] at hyear
    rw [monthFirstDate, run_shortNumber_bind hms (by simp), run_char_bind,
      run_shortNumber_bind hds (by simp), run_char_bind, year, run_bind_of_eq_some hyear]
    rfl
  rw [outdatedDate, StateT.run_bind, run_orElse, hslashed, run_orElse, hdate]
  rfl

private theorem run_outdatedDate_loose (hys : Writes 4 y ys) (hms : WritesShort m ms)
    (hds : WritesShort d ds) :
    outdatedDate.run (ys ++ '-' :: (ms ++ '-' :: ds)) = some (.outdated y m d, []) := by
  have hslashed : slashedDate.run (ys ++ '-' :: (ms ++ '-' :: ds)) = none :=
    run_year_char_eq_none hys (by simp) _
  have hdate : looseDate.run (ys ++ '-' :: (ms ++ '-' :: ds)) = some (.outdated y m d, []) :=
    run_separated rfl hys hms hds
  rw [outdatedDate, StateT.run_bind, run_orElse, hslashed, run_orElse,
    run_monthFirstDate_eq_none hys, run_orElse, hdate]
  rfl

private theorem run_outdatedDate_compact (hys : Writes 4 y ys) (hms : Writes 2 m ms) :
    outdatedDate.run (ys ++ ms) = some (.outdated y m 1, []) := by
  have hslashed : slashedDate.run (ys ++ (ms ++ [])) = none :=
    run_year_char_eq_none hys (hms.head_ne rfl []) _
  have hloose : looseDate.run (ys ++ (ms ++ [])) = none :=
    run_year_char_eq_none hys (hms.head_ne rfl []) _
  have hdate : compactMonth.run (ys ++ (ms ++ [])) = some (.outdated y m 1, []) := by
    rw [compactMonth, year, run_number_bind hys, pair, run_number_bind hms]
    rfl
  rw [← List.append_nil ms, outdatedDate, StateT.run_bind, run_orElse, hslashed, run_orElse,
    run_monthFirstDate_eq_none hys, run_orElse, hloose, hdate]
  rfl

end

end Reader

private theorem Spelling.read?_of_run_isoDate {text : String} {found : Spelling}
    (h : Reader.isoDate.run text.toList = some (found, [])) : Spelling.read? text = some found := by
  rw [Spelling.read?, Reader.run_orElse, h]
  rfl

/-- The forms of ISO 8601 come first, and a text that has one of them has no other. -/
theorem Spelling.read?_iso_of_written {text : String} {name : DayName} {time : Option ClockTime}
    (h : (Spelling.iso name time).Written text.toList) :
    Spelling.read? text = some (.iso name time) := by
  refine Spelling.read?_of_run_isoDate ?_
  generalize text.toList = chars at h
  cases h with
  | day hname => exact Reader.run_isoDate_of_day hname
  | dayAndTime hname htime => exact Reader.run_isoDate_of_dayAndTime hname htime

/-- A written date is read, in its own form or as the calendar day of ISO 8601 that it also is. -/
theorem Spelling.read?_of_written {text : String} {spelling : Spelling}
    (h : spelling.Written text.toList) :
    ∃ found, Spelling.read? text = some found ∧ found.date? = spelling.date? := by
  have read_iso {found : Spelling} (hrun : Reader.isoDate.run text.toList = some (found, [])) :
      Spelling.read? text = some found :=
    Spelling.read?_of_run_isoDate hrun
  have read_outdated {found : Spelling} (hiso : Reader.isoDate.run text.toList = none)
      (hrun : Reader.outdatedDate.run text.toList = some (found, [])) :
      Spelling.read? text = some found := by
    rw [Spelling.read?, Reader.run_orElse, hiso, hrun]
    rfl
  generalize text.toList = chars at *
  cases h with
  | day hname => exact ⟨_, read_iso (Reader.run_isoDate_of_day hname), rfl⟩
  | dayAndTime hname htime =>
    exact ⟨_, read_iso (Reader.run_isoDate_of_dayAndTime hname htime), rfl⟩
  | slashed hys hms hds =>
    exact ⟨_, read_outdated (Reader.run_isoDate_slashed_eq_none hys)
      (Reader.run_outdatedDate_slashed hys hms hds), rfl⟩
  | monthFirst hms hds hys =>
    exact ⟨_, read_outdated (Reader.run_isoDate_monthFirst_eq_none hms)
      (Reader.run_outdatedDate_monthFirst hms hds hys), rfl⟩
  | loose hys hms hds =>
    have houtdated := Reader.run_outdatedDate_loose hys hms hds
    rcases hms with hms | hms
    · exact ⟨_, read_outdated (Reader.run_isoDate_shortMonth_eq_none hys hms) houtdated, rfl⟩
    rcases hds with hds | hds
    · exact ⟨_, read_outdated (Reader.run_isoDate_shortDay_eq_none hys hms hds) houtdated, rfl⟩
    -- With two digits each, the text is also the dashed form of ISO 8601, which comes first.
    · exact ⟨_, read_iso (Reader.run_isoDate_of_day (.dashed hys hms hds)), rfl⟩
  | compact hys hms =>
    exact ⟨_, read_outdated (Reader.run_isoDate_compact_eq_none hys hms)
      (Reader.run_outdatedDate_compact hys hms), rfl⟩

theorem Spelling.Written.date?_unique {text : String} {spelling other : Spelling}
    (h : spelling.Written text.toList) (h' : other.Written text.toList) :
    other.date? = spelling.date? := by
  obtain ⟨found, hfound, hdate⟩ := Spelling.read?_of_written h
  obtain ⟨found', hfound', hdate'⟩ := Spelling.read?_of_written h'
  obtain rfl := Option.some.inj (hfound.symm.trans hfound')
  exact hdate'.symm.trans hdate

private theorem Date.parse_of_read? {text : String} {found : Spelling}
    (h : Spelling.read? text = some found) :
    Date.parse text = (match found.date? with
      | some d => .ok d
      | none => .error (.impossible text)) := by
  unfold Date.parse
  simp only [h]
  cases found.date? <;> simp only

theorem Date.parse_of_written {text : String} {spelling : Spelling}
    (h : spelling.Written text.toList) :
    Date.parse text = (match spelling.date? with
      | some d => .ok d
      | none => .error (.impossible text)) := by
  obtain ⟨found, hfound, hdate⟩ := Spelling.read?_of_written h
  rw [← hdate]
  exact Date.parse_of_read? hfound

theorem Spelling.Written.parse_eq_ok_iff {text : String} {spelling : Spelling} {d : Date}
    (h : spelling.Written text.toList) : Date.parse text = .ok d ↔ spelling.date? = some d := by
  rw [Date.parse_of_written h]
  cases spelling.date? <;> simp

theorem Spelling.Written.parse_eq_impossible_iff {text : String} {spelling : Spelling}
    (h : spelling.Written text.toList) :
    Date.parse text = .error (.impossible text) ↔ spelling.date? = none := by
  rw [Date.parse_of_written h]
  cases spelling.date? <;> simp

/-- A date is read from a text exactly if the text is written in one of the forms, in whatever
order they are tried, and the day it is read as is the one that every way to write it means. -/
theorem Date.parse_written_forms (text : String) :
    (Date.parse text = .error .unreadable ↔ ∀ spelling : Spelling, ¬ spelling.Written text.toList) ∧
    ∀ spelling : Spelling, spelling.Written text.toList →
      (∀ other : Spelling, other.Written text.toList → other.date? = spelling.date?) ∧
      Date.parse text = (match spelling.date? with
        | some d => .ok d
        | none => .error (.impossible text)) := by
  refine ⟨⟨?_, ?_⟩, ?_⟩
  · intro hparse spelling h
    obtain ⟨found, hfound, -⟩ := Spelling.read?_of_written h
    rw [Date.parse_of_read? hfound] at hparse
    cases hdate : found.date? <;> simp [hdate] at hparse
  · intro h
    cases hread : Spelling.read? text with
    | none =>
      unfold Date.parse
      simp only [hread]
    | some spelling => exact absurd (Spelling.written_of_read? hread) (h spelling)
  · intro spelling h
    obtain ⟨found, hfound, hdate⟩ := Spelling.read?_of_written h
    refine ⟨fun other hother => h.date?_unique hother, ?_⟩
    rw [← hdate]
    exact Date.parse_of_read? hfound

/-- The dashed day, which the outdated form `YYYY-M-D` writes as well. -/
theorem Date.parse_dashed_or_loose :
    (Spelling.iso (.calendar 2020 5 20) none).Written "2020-05-20".toList ∧
    (Spelling.outdated 2020 5 20).Written "2020-05-20".toList ∧
    ∃ d, Date.ofYmd? 2020 5 20 = some d ∧ Date.parse "2020-05-20" = .ok d := by
  have hyear : Writes 4 2020 ['2', '0', '2', '0'] := ⟨rfl, List.all_eq_true.mp rfl, rfl⟩
  have hmonth : Writes 2 5 ['0', '5'] := ⟨rfl, List.all_eq_true.mp rfl, rfl⟩
  have hday : Writes 2 20 ['2', '0'] := ⟨rfl, List.all_eq_true.mp rfl, rfl⟩
  have hloose : (Spelling.outdated 2020 5 20).Written "2020-05-20".toList :=
    .loose hyear (.inr hmonth) (.inr hday)
  obtain ⟨-, hparse⟩ := (Date.parse_written_forms "2020-05-20").2 _ hloose
  refine ⟨.day (.dashed hyear hmonth hday), hloose, _, ?_, hparse⟩
  decide

end DayRoster
