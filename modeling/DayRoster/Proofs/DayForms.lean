import DayRoster.Proofs.ReaderSteps

/-!
The forms of a day share their beginnings, and the reader keeps the first one that fits. It still
reads every written day in its own form, as long as the text does not go on as a longer day would.
-/

set_option autoImplicit false

namespace DayRoster.Reader

open Decimal (Writes WritesShort)
open Text (MayBe)

variable {text rest : List Char}

private theorem isDigit_of_le {c : Char} (h : '1' ≤ c ∧ c ≤ '7') : c.isDigit := by
  have hlo : 49 ≤ c.toNat := h.1
  have hhi : c.toNat ≤ 55 := h.2
  have hbounds : '0'.toNat = 48 ∧ '9'.toNat = 57 := ⟨rfl, rfl⟩
  rw [Char.isDigit_iff_toNat]
  omega

/-- What may stand behind a day without being taken for a part of it. -/
def EndsDay (rest : List Char) : Prop :=
  ∀ c ∈ rest.head?, c.isDigit = false ∧ c ≠ '-' ∧ c ≠ 'W' ∧ c ≠ 'w'

private theorem run_isoDay_dashed {y m d : Nat} {ys ms ds : List Char} (hys : Writes 4 y ys)
    (hms : Writes 2 m ms) (hds : Writes 2 d ds) :
    isoDay.run (ys ++ '-' :: (ms ++ '-' :: (ds ++ rest))) = some (.calendar y m d, rest) := by
  simp only [isoDay, calendarDay, run_orElse, year, pair, run_number_bind hys, run_char_bind,
    run_number_bind hms, run_number_bind hds]
  rfl

private theorem run_isoDay_plain {y m d : Nat} {ys ms ds : List Char} (hys : Writes 4 y ys)
    (hms : Writes 2 m ms) (hds : Writes 2 d ds) :
    isoDay.run (ys ++ (ms ++ (ds ++ rest))) = some (.calendar y m d, rest) := by
  have hdash : (char '-').run (ms ++ (ds ++ rest)) = none :=
    run_char_eq_none (hms.head_ne rfl _)
  simp only [isoDay, calendarDay, run_orElse, year, pair, run_number_bind hys,
    run_bind_eq_none hdash, run_number_bind hms, run_number_bind hds]
  rfl

section

variable {y : Nat} {ys dash : List Char} {c : Char}

private theorem run_pair_cons_eq_none (h : c.isDigit = false) : pair.run (c :: rest) = none :=
  run_number_succ_eq_none (by simpa using h) 1

private theorem run_calendarDay_eq_none (hys : Writes 4 y ys) (hdash : MayBe '-' dash)
    (hdigit : c.isDigit = false) (hne : c ≠ '-') :
    calendarDay.run (ys ++ (dash ++ c :: rest)) = none := by
  rcases hdash with rfl | rfl
  · simp only [calendarDay, run_orElse, year, run_number_bind hys, List.nil_append,
      run_bind_eq_none (run_char_cons_eq_none hne), run_bind_eq_none (run_pair_cons_eq_none hdigit),
      Option.or_none]
  · simp only [calendarDay, run_orElse, year, run_number_bind hys, List.singleton_append,
      run_char_bind, run_bind_eq_none (run_pair_cons_eq_none hdigit), Option.none_or]
    exact run_bind_eq_none (run_pair_cons_eq_none rfl) _

private theorem run_weekDay_eq_none (hys : Writes 4 y ys) (hdash : MayBe '-' dash)
    (htail : ∀ c ∈ rest.head?, c ≠ '-' ∧ c ≠ 'W' ∧ c ≠ 'w') :
    weekDay.run (ys ++ (dash ++ rest)) = none := by
  have hletter : (satisfying fun c => c = 'W' ∨ c = 'w').run rest = none := by
    refine run_satisfying_eq_none fun c hc => ?_
    simp [htail c hc]
  rw [weekDay, year, run_number_bind hys, run_mayBe_bind hdash fun c hc => (htail c hc).1]
  exact run_bind_eq_none hletter _

end

private theorem run_isoDay_week {y w : Nat} {ys dash ws : List Char} {letter : Char}
    (hys : Writes 4 y ys) (hdash : MayBe '-' dash) (hletter : letter = 'W' ∨ letter = 'w')
    (hws : Writes 2 w ws) {weekday : Weekday} {tail : List Char}
    (hweekday : ((do let _ ← optional (char '-'); weekdayDigit) <|> pure .monday : Reader Weekday).run
      tail = some (weekday, rest)) :
    isoDay.run (ys ++ (dash ++ letter :: (ws ++ tail))) = some (.week y w weekday, rest) := by
  have hdigit : letter.isDigit = false := by rcases hletter with rfl | rfl <;> decide
  have hne : letter ≠ '-' := by rcases hletter with rfl | rfl <;> decide
  have hweekDay : weekDay.run (ys ++ (dash ++ letter :: (ws ++ tail))) =
      some (.week y w weekday, rest) := by
    rw [weekDay, year, run_number_bind hys, run_mayBe_bind hdash (by simpa using hne),
      run_satisfying_bind (decide_eq_true hletter), pair, run_number_bind hws,
      run_bind_of_eq_some hweekday]
    rfl
  rw [isoDay, run_orElse, run_calendarDay_eq_none hys hdash hdigit hne, run_orElse, hweekDay]
  rfl

/-- Two digits after the dash are the beginning of a calendar day only if a dash and two more digits
follow. -/
private theorem run_calendarDay_dash_eq_none {y m : Nat} {ys ms : List Char} (hys : Writes 4 y ys)
    (hms : Writes 2 m ms)
    (h : ∀ f : Nat → Reader DayName, (do let _ ← char '-'; let d ← pair; f d).run rest = none) :
    calendarDay.run (ys ++ '-' :: (ms ++ rest)) = none := by
  simp only [calendarDay, run_orElse, year, run_number_bind hys, run_char_bind]
  rw [pair, run_number_bind hms, ← pair, h]
  exact run_bind_eq_none (run_pair_cons_eq_none rfl) _

private theorem run_calendarDay_plain_eq_none {y m : Nat} {ys ms : List Char} (hys : Writes 4 y ys)
    (hms : Writes 2 m ms) (h : pair.run rest = none) :
    calendarDay.run (ys ++ (ms ++ rest)) = none := by
  have hdash : (char '-').run (ms ++ rest) = none := run_char_eq_none (hms.head_ne rfl _)
  simp only [calendarDay, run_orElse, year, run_number_bind hys, run_bind_eq_none hdash]
  rw [pair, run_number_bind hms, ← pair, run_bind_eq_none h]
  rfl

private theorem head_ne_of_writes {width n : Nat} {ns : List Char} (h : Writes (width + 1) n ns) :
    ∀ c ∈ (ns ++ rest).head?, c ≠ '-' ∧ c ≠ 'W' ∧ c ≠ 'w' := fun c hc =>
  ⟨h.head_ne rfl rest c hc, h.head_ne rfl rest c hc, h.head_ne rfl rest c hc⟩

private theorem run_ordinalDay_eq_none {y m : Nat} {ys dash ms : List Char} (hys : Writes 4 y ys)
    (hdash : MayBe '-' dash) {width : Nat} (hms : Writes (width + 1) m ms) (hshort : width + 1 < 3)
    (hrest : ∀ c ∈ rest.head?, c.isDigit = false) :
    ordinalDay.run (ys ++ (dash ++ (ms ++ rest))) = none := by
  rw [ordinalDay, year, run_number_bind hys, run_mayBe_bind hdash (hms.head_ne rfl rest)]
  exact run_bind_eq_none (run_number_eq_none (hms.length_eq.trans_lt hshort) hrest) _

private theorem run_isoDay_ordinal {y n : Nat} {ys dash ns : List Char} (hys : Writes 4 y ys)
    (hdash : MayBe '-' dash) (hns : Writes 3 n ns) (hrest : EndsDay rest) :
    isoDay.run (ys ++ (dash ++ (ns ++ rest))) = some (.ordinal y n, rest) := by
  -- The first two of the three digits are taken for a month before the third one stops the reader.
  have hcalendar : calendarDay.run (ys ++ (dash ++ (ns ++ rest))) = none := by
    obtain ⟨m, ms, k, ks, hms, hks, rfl⟩ := hns.exists_append 2 1
    rw [List.append_assoc]
    rcases hdash with rfl | rfl
    · rw [List.nil_append]
      refine run_calendarDay_plain_eq_none hys hms ?_
      exact run_number_eq_none (hks.length_eq.trans_lt (by decide)) fun c hc => (hrest c hc).1
    · rw [List.singleton_append]
      refine run_calendarDay_dash_eq_none hys hms fun f => ?_
      exact run_bind_eq_none (run_char_eq_none (hks.head_ne rfl rest)) _
  have hweek : weekDay.run (ys ++ (dash ++ (ns ++ rest))) = none :=
    run_weekDay_eq_none hys hdash (head_ne_of_writes hns)
  have hordinal : ordinalDay.run (ys ++ (dash ++ (ns ++ rest))) = some (.ordinal y n, rest) := by
    rw [ordinalDay, year, run_number_bind hys, run_mayBe_bind hdash (hns.head_ne rfl rest),
      run_number_bind hns]
    rfl
  rw [isoDay, run_orElse, hcalendar, run_orElse, hweek, run_orElse, hordinal]
  rfl

/-- Two digits after the dash are a month if neither a calendar day nor an ordinal one begins with
them. -/
private theorem run_isoDay_month {y m : Nat} {ys ms : List Char} (hys : Writes 4 y ys)
    (hms : Writes 2 m ms)
    (hday : ∀ f : Nat → Reader DayName, (do let _ ← char '-'; let d ← pair; f d).run rest = none)
    (hrest : ∀ c ∈ rest.head?, c.isDigit = false) :
    isoDay.run (ys ++ '-' :: (ms ++ rest)) = some (.month y m, rest) := by
  have hdash : MayBe '-' ['-'] := .inr rfl
  have hweek : weekDay.run (ys ++ '-' :: (ms ++ rest)) = none :=
    run_weekDay_eq_none hys hdash (head_ne_of_writes hms)
  have hordinal : ordinalDay.run (ys ++ '-' :: (ms ++ rest)) = none :=
    run_ordinalDay_eq_none hys hdash hms (by decide) hrest
  rw [isoDay, run_orElse, run_calendarDay_dash_eq_none hys hms hday, run_orElse, hweek, run_orElse,
    hordinal, run_orElse, wholeMonth, year, run_number_bind hys, run_char_bind, pair,
    run_number_bind hms]
  rfl

private theorem run_isoDay_year {y : Nat} {ys : List Char} (hys : Writes 4 y ys)
    (hcalendar : calendarDay.run (ys ++ rest) = none) (hweek : weekDay.run (ys ++ rest) = none)
    (hordinal : ordinalDay.run (ys ++ rest) = none)
    (hmonth : wholeMonth.run (ys ++ rest) = none) :
    isoDay.run (ys ++ rest) = some (.year y, rest) := by
  rw [isoDay, run_orElse, hcalendar, run_orElse, hweek, run_orElse, hordinal, run_orElse, hmonth,
    wholeYear, StateT.run_map, year, run_number_of_writes hys]
  rfl

theorem run_isoDay_year_of_endsDay {y : Nat} {ys : List Char} (hys : Writes 4 y ys)
    (hrest : EndsDay rest) : isoDay.run (ys ++ rest) = some (.year y, rest) := by
  have hdash : (char '-').run rest = none := run_char_eq_none fun c hc => (hrest c hc).2.1
  have hdigit : ∀ c ∈ rest.head?, c.isDigit = false := fun c hc => (hrest c hc).1
  refine run_isoDay_year hys ?_ ?_ ?_ ?_
  · simp only [calendarDay, run_orElse, year, run_number_bind hys, run_bind_eq_none hdash,
      Option.none_or]
    exact run_bind_eq_none (run_number_succ_eq_none hdigit 1) _
  · exact run_weekDay_eq_none hys (.inl rfl) fun c hc => (hrest c hc).2
  · rw [ordinalDay, year, run_number_bind hys]
    refine (run_mayBe_bind (.inl rfl) (fun c hc => (hrest c hc).2.1) _).trans ?_
    exact run_bind_eq_none (run_number_succ_eq_none hdigit 2) _
  · exact run_year_char_eq_none hys (fun c hc => (hrest c hc).2.1) _

/-- A written day is read as such, unless the text goes on as a longer day would. -/
theorem run_isoDay_of_written {name : DayName} {front : List Char} (h : name.Written front)
    (hrest : EndsDay rest) : isoDay.run (front ++ rest) = some (name, rest) := by
  have hdash : ∀ c ∈ rest.head?, c ≠ '-' := fun c hc => (hrest c hc).2.1
  have hdigit : ∀ c ∈ rest.head?, c.isDigit = false := fun c hc => (hrest c hc).1
  cases h with
  | dashed hys hms hds =>
    simp only [List.append_assoc, List.cons_append]
    exact run_isoDay_dashed hys hms hds
  | plain hys hms hds =>
    simp only [List.append_assoc]
    exact run_isoDay_plain hys hms hds
  | week hys hleft hletter hws =>
    simp only [List.append_assoc, List.cons_append]
    refine run_isoDay_week hys hleft hletter hws ?_
    have hweekday : weekdayDigit.run rest = none := by
      refine run_bind_eq_none (run_satisfying_eq_none fun c hc => ?_) _
      exact decide_eq_false fun h => absurd (isDigit_of_le h) (Bool.eq_false_iff.mp (hdigit c hc))
    rw [run_orElse, ← List.nil_append rest, run_mayBe_bind (.inl rfl) hdash, hweekday]
    rfl
  | weekday hys hleft hletter hws hright hlo hhi =>
    simp only [List.append_assoc, List.cons_append]
    refine run_isoDay_week hys hleft hletter hws ?_
    have hdigit := isDigit_of_le ⟨hlo, hhi⟩
    rw [run_orElse, run_mayBe_bind hright (by simpa using ne_of_isDigit hdigit rfl), weekdayDigit,
      run_satisfying_bind (decide_eq_true ⟨hlo, hhi⟩)]
    rfl
  | ordinal hys hleft hns =>
    simp only [List.append_assoc]
    exact run_isoDay_ordinal hys hleft hns hrest
  | month hys hms =>
    simp only [List.append_assoc, List.cons_append]
    refine run_isoDay_month hys hms (fun f => ?_) hdigit
    exact run_bind_eq_none (run_char_eq_none hdash) _
  | year hys => exact run_isoDay_year_of_endsDay hys hrest

section

variable {y m d : Nat} {ys ms ds : List Char}

theorem run_isoDay_two_digits (hys : Writes 4 y ys) (hms : Writes 2 m ms) :
    isoDay.run (ys ++ ms) = some (.year y, ms) := by
  have hnone : MayBe '-' [] := .inl rfl
  have hweek : weekDay.run (ys ++ ([] ++ (ms ++ []))) = none :=
    run_weekDay_eq_none hys hnone (head_ne_of_writes hms)
  have hordinal : ordinalDay.run (ys ++ ([] ++ (ms ++ []))) = none :=
    run_ordinalDay_eq_none hys hnone hms (by decide) (by simp)
  rw [← List.append_nil ms]
  refine run_isoDay_year hys ?_ hweek hordinal ?_
  · exact run_calendarDay_plain_eq_none hys hms rfl
  · exact run_year_char_eq_none hys (hms.head_ne rfl []) _

theorem run_isoDay_dash_digit (hys : Writes 4 y ys) (hms : Writes 1 m ms) :
    isoDay.run (ys ++ '-' :: (ms ++ '-' :: rest)) = some (.year y, '-' :: (ms ++ '-' :: rest)) := by
  have hpair : pair.run (ms ++ '-' :: rest) = none :=
    run_number_eq_none (hms.length_eq.trans_lt (by decide)) (by simp)
  refine run_isoDay_year hys ?_ ?_ ?_ ?_
  · simp only [calendarDay, run_orElse, year, run_number_bind hys, run_char_bind,
      run_bind_eq_none hpair, Option.none_or]
    exact run_bind_eq_none (run_pair_cons_eq_none rfl) _
  · exact run_weekDay_eq_none hys (.inr rfl) (head_ne_of_writes hms)
  · exact run_ordinalDay_eq_none hys (.inr rfl) hms (by decide) (by simp)
  · rw [wholeMonth, year, run_number_bind hys, run_char_bind]
    exact run_bind_eq_none hpair _

theorem run_isoDay_month_dash_digit (hys : Writes 4 y ys) (hms : Writes 2 m ms)
    (hds : Writes 1 d ds) :
    isoDay.run (ys ++ '-' :: (ms ++ '-' :: ds)) = some (.month y m, '-' :: ds) := by
  have hpair : pair.run (ds ++ []) = none :=
    run_number_eq_none (hds.length_eq.trans_lt (by decide)) (by simp)
  rw [List.append_nil] at hpair
  refine run_isoDay_month hys hms (fun f => ?_) (by simp)
  rw [run_char_bind]
  exact run_bind_eq_none hpair f

end

end DayRoster.Reader
