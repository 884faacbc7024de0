import DayRoster.Spelling
import Mathlib.Data.List.TakeWhile

/-!
The forms of a written date as an unordered grammar. `Spelling.Written` says which texts write a
spelling, with no order among the forms and with every part that may be left out either there or
not. Whatever the reader takes off the front of a text is written in one of the forms.
-/

set_option autoImplicit false

namespace DayRoster

/-- The texts of a number with a given count of decimal digits. -/
structure Decimal.Writes (width n : Nat) (text : List Char) : Prop where
  length_eq : text.length = width
  isDigit : ∀ c ∈ text, c.isDigit
  value_eq : Decimal.value text = n

def Text.MayBe (c : Char) (text : List Char) : Prop := text = [] ∨ text = [c]

open Decimal (Writes)
open Text (MayBe)

/-- The forms of a day in ISO 8601. -/
inductive DayName.Written : DayName → List Char → Prop
  | dashed {y m d : Nat} {ys ms ds : List Char} :
      Writes 4 y ys → Writes 2 m ms → Writes 2 d ds →
      Written (.calendar y m d) (ys ++ '-' :: (ms ++ '-' :: ds))
  | plain {y m d : Nat} {ys ms ds : List Char} :
      Writes 4 y ys → Writes 2 m ms → Writes 2 d ds →
      Written (.calendar y m d) (ys ++ (ms ++ ds))
  | week {y w : Nat} {ys dash ws : List Char} {letter : Char} :
      Writes 4 y ys → MayBe '-' dash → letter = 'W' ∨ letter = 'w' → Writes 2 w ws →
      Written (.week y w .monday) (ys ++ (dash ++ letter :: ws))
  | weekday {y w : Nat} {ys dash ws dash' : List Char} {letter digit : Char} :
      Writes 4 y ys → MayBe '-' dash → letter = 'W' ∨ letter = 'w' → Writes 2 w ws →
      MayBe '-' dash' → '1' ≤ digit → digit ≤ '7' →
      Written (.week y w (.ofNumber (Decimal.value [digit])))
        (ys ++ (dash ++ letter :: (ws ++ (dash' ++ [digit]))))
  | ordinal {y n : Nat} {ys dash ns : List Char} :
      Writes 4 y ys → MayBe '-' dash → Writes 3 n ns →
      Written (.ordinal y n) (ys ++ (dash ++ ns))
  | month {y m : Nat} {ys ms : List Char} :
      Writes 4 y ys → Writes 2 m ms → Written (.month y m) (ys ++ '-' :: ms)
  | year {y : Nat} {ys : List Char} : Writes 4 y ys → Written (.year y) ys

inductive ZoneOffset.Written : ZoneOffset → List Char → Prop
  | utc : Written ⟨0, 0⟩ ['Z']
  | hours {h : Nat} {hs : List Char} {sign : Char} :
      sign = '+' ∨ sign = '-' → Writes 2 h hs → Written ⟨h, 0⟩ (sign :: hs)
  | minutes {h m : Nat} {hs colon ms : List Char} {sign : Char} :
      sign = '+' ∨ sign = '-' → Writes 2 h hs → MayBe ':' colon → Writes 2 m ms →
      Written ⟨h, m⟩ (sign :: (hs ++ (colon ++ ms)))

inductive ZoneOffset.MayBeWritten : Option ZoneOffset → List Char → Prop
  | absent : MayBeWritten none []
  | present {zone : ZoneOffset} {text : List Char} : zone.Written text → MayBeWritten (some zone) text

/-- What may follow the minutes of a time of day: seconds, and a fraction of them. -/
inductive ClockTime.SecondsWritten : Nat → List Char → List Char → Prop
  | absent : SecondsWritten 0 [] []
  | whole {s : Nat} {colon ss : List Char} :
      MayBe ':' colon → Writes 2 s ss → SecondsWritten s [] (colon ++ ss)
  | fraction {s : Nat} {colon ss digits : List Char} {point : Char} :
      MayBe ':' colon → Writes 2 s ss → point = '.' ∨ point = ',' → digits ≠ [] →
      (∀ c ∈ digits, c.isDigit) → SecondsWritten s digits (colon ++ (ss ++ point :: digits))

/-- What may follow the hour of a time of day: minutes, and what may follow them. -/
inductive ClockTime.MinutesWritten : Nat → Nat → List Char → List Char → Prop
  | absent : MinutesWritten 0 0 [] []
  | present {m s : Nat} {colon ms digits rest : List Char} :
      MayBe ':' colon → Writes 2 m ms → SecondsWritten s digits rest →
      MinutesWritten m s digits (colon ++ (ms ++ rest))

inductive ClockTime.Written : ClockTime → List Char → Prop
  | intro {h m s : Nat} {digits hs rest zs : List Char} {zone : Option ZoneOffset} {letter : Char} :
      letter = 'T' ∨ letter = 't' → Writes 2 h hs → MinutesWritten m s digits rest →
      ZoneOffset.MayBeWritten zone zs →
      Written ⟨h, m, s, digits, zone⟩ (letter :: (hs ++ (rest ++ zs)))

def Decimal.WritesShort (n : Nat) (text : List Char) : Prop := Writes 1 n text ∨ Writes 2 n text

open Decimal (WritesShort)

/-- The forms of a date. -/
inductive Spelling.Written : Spelling → List Char → Prop
  | day {name : DayName} {text : List Char} : name.Written text → Written (.iso name none) text
  | dayAndTime {name : DayName} {time : ClockTime} {text later : List Char} :
      name.Written text → time.Written later → Written (.iso name (some time)) (text ++ later)
  | slashed {y m d : Nat} {ys ms ds : List Char} :
      Writes 4 y ys → WritesShort m ms → WritesShort d ds →
      Written (.outdated y m d) (ys ++ '/' :: (ms ++ '/' :: ds))
  | monthFirst {y m d : Nat} {ys ms ds : List Char} :
      WritesShort m ms → WritesShort d ds → Writes 4 y ys →
      Written (.outdated y m d) (ms ++ '/' :: (ds ++ '/' :: ys))
  | loose {y m d : Nat} {ys ms ds : List Char} :
      Writes 4 y ys → WritesShort m ms → WritesShort d ds →
      Written (.outdated y m d) (ys ++ '-' :: (ms ++ '-' :: ds))
  | compact {y m : Nat} {ys ms : List Char} :
      Writes 4 y ys → Writes 2 m ms → Written (.outdated y m 1) (ys ++ ms)

namespace Reader

section

variable {α β : Type} {text rest : List Char} {b : β}

theorem of_run_bind {p : Reader α} {f : α → Reader β}
    (h : (p >>= f).run text = some (b, rest)) :
    ∃ a later, p.run text = some (a, later) ∧ (f a).run later = some (b, rest) := by
  rw [StateT.run_bind, Option.bind_eq_bind, Option.bind_eq_some_iff] at h
  obtain ⟨⟨a, later⟩, hp, hf⟩ := h
  exact ⟨a, later, hp, hf⟩

theorem of_run_pure {a : β} (h : (pure a : Reader β).run text = some (b, rest)) :
    b = a ∧ text = rest := by
  obtain ⟨hb, hrest⟩ := Prod.mk.inj (Option.some.inj h)
  exact ⟨hb.symm, hrest⟩

theorem of_run_orElse {p q : Reader β} (h : (p <|> q).run text = some (b, rest)) :
    p.run text = some (b, rest) ∨ q.run text = some (b, rest) := by
  rw [run_orElse] at h
  cases hp : p.run text with
  | none => exact .inr (by rwa [hp] at h)
  | some taken => exact .inl (by rwa [hp] at h)

theorem of_run_optional {p : Reader α} {found : Option α}
    (h : (optional p).run text = some (found, rest)) :
    (found = none ∧ text = rest) ∨ ∃ a, found = some a ∧ p.run text = some (a, rest) := by
  rcases of_run_orElse h with h | h
  · obtain ⟨a, later, hp, h⟩ := of_run_bind (f := fun a => pure (some a)) h
    obtain ⟨rfl, rfl⟩ := of_run_pure h
    exact .inr ⟨a, rfl, hp⟩
  · exact .inl (of_run_pure h)

theorem of_run_satisfying {p : Char → Bool} {c : Char}
    (h : (satisfying p).run text = some (c, rest)) : p c ∧ text = c :: rest := by
  cases text with
  | nil => exact nomatch h
  | cons d tail =>
    rw [run_satisfying_cons] at h
    split at h
    · next hd =>
      obtain ⟨rfl, rfl⟩ := Prod.mk.inj (Option.some.inj h)
      exact ⟨hd, rfl⟩
    · exact nomatch h

private theorem of_run_digits {width : Nat} {ds : List Char}
    (h : (digits width).run text = some (ds, rest)) :
    ds.length = width ∧ (∀ c ∈ ds, c.isDigit) ∧ text = ds ++ rest := by
  induction width generalizing text ds with
  | zero =>
    obtain ⟨rfl, rfl⟩ := of_run_pure h
    exact ⟨rfl, by simp, rfl⟩
  | succ width ih =>
    obtain ⟨d, later, hd, h⟩ := of_run_bind h
    obtain ⟨others, later', hothers, h⟩ := of_run_bind h
    obtain ⟨rfl, rfl⟩ := of_run_pure h
    obtain ⟨hdigit, rfl⟩ := of_run_satisfying hd
    obtain ⟨hlength, hdigits, rfl⟩ := ih hothers
    refine ⟨by simp [hlength], ?_, rfl⟩
    intro c hc
    rcases List.mem_cons.mp hc with rfl | hc
    · exact hdigit
    · exact hdigits c hc

theorem of_run_number {width n : Nat} (h : (number width).run text = some (n, rest)) :
    ∃ ds, Writes width n ds ∧ text = ds ++ rest := by
  rw [number, StateT.run_map] at h
  obtain ⟨⟨ds, later⟩, hds, h⟩ := Option.map_eq_some_iff.mp h
  obtain ⟨rfl, rfl⟩ := Prod.mk.inj h
  obtain ⟨hlength, hdigits, htext⟩ := of_run_digits hds
  exact ⟨ds, ⟨hlength, hdigits, rfl⟩, htext⟩

/-! An item in front of a reader, taken off together with what the rest of the reader takes. -/

theorem of_run_satisfying_bind {p : Char → Bool} {f : Char → Reader β}
    (h : (satisfying p >>= f).run text = some (b, rest)) :
    ∃ c later, p c ∧ text = c :: later ∧ (f c).run later = some (b, rest) := by
  obtain ⟨c, later, hc, h₁⟩ := of_run_bind h
  obtain ⟨hp, htext⟩ := of_run_satisfying hc
  exact ⟨c, later, hp, htext, h₁⟩

theorem of_run_char_bind {c : Char} {f : Char → Reader β}
    (h : (char c >>= f).run text = some (b, rest)) :
    ∃ later, text = c :: later ∧ (f c).run later = some (b, rest) := by
  obtain ⟨d, later, hd, htext, h₁⟩ := of_run_satisfying_bind h
  obtain rfl := beq_iff_eq.mp hd
  exact ⟨later, htext, h₁⟩

theorem of_run_optional_char_bind {c : Char} {f : Option Char → Reader β}
    (h : (optional (char c) >>= f).run text = some (b, rest)) :
    ∃ front later found, MayBe c front ∧ text = front ++ later ∧
      (f found).run later = some (b, rest) := by
  obtain ⟨found, later, hfound, h₁⟩ := of_run_bind h
  rcases of_run_optional hfound with ⟨-, rfl⟩ | ⟨d, -, hd⟩
  · exact ⟨[], text, found, .inl rfl, rfl, h₁⟩
  · obtain ⟨hc, rfl⟩ := of_run_satisfying hd
    obtain rfl := beq_iff_eq.mp hc
    exact ⟨[d], later, found, .inr rfl, rfl, h₁⟩

theorem of_run_number_bind {width : Nat} {f : Nat → Reader β}
    (h : (number width >>= f).run text = some (b, rest)) :
    ∃ n ds later, Writes width n ds ∧ text = ds ++ later ∧ (f n).run later = some (b, rest) := by
  obtain ⟨n, later, hn, h₁⟩ := of_run_bind h
  obtain ⟨ds, hds, htext⟩ := of_run_number hn
  exact ⟨n, ds, later, hds, htext, h₁⟩

theorem of_run_shortNumber_bind {f : Nat → Reader β}
    (h : (shortNumber >>= f).run text = some (b, rest)) :
    ∃ n ds later, WritesShort n ds ∧ text = ds ++ later ∧ (f n).run later = some (b, rest) := by
  obtain ⟨n, later, hn, h₁⟩ := of_run_bind h
  rcases of_run_orElse hn with hn | hn
  · obtain ⟨ds, hds, htext⟩ := of_run_number hn
    exact ⟨n, ds, later, .inr hds, htext, h₁⟩
  · obtain ⟨ds, hds, htext⟩ := of_run_number hn
    exact ⟨n, ds, later, .inl hds, htext, h₁⟩

end

variable {text rest : List Char}

private theorem of_run_calendarDay {name : DayName}
    (h : calendarDay.run text = some (name, rest)) :
    ∃ front, name.Written front ∧ text = front ++ rest := by
  rcases of_run_orElse h with h | h
  · obtain ⟨y, ys, _, hys, rfl, h₁⟩ := of_run_number_bind h
    obtain ⟨_, rfl, h₂⟩ := of_run_char_bind h₁
    obtain ⟨m, ms, _, hms, rfl, h₃⟩ := of_run_number_bind h₂
    obtain ⟨_, rfl, h₄⟩ := of_run_char_bind h₃
    obtain ⟨d, ds, _, hds, rfl, h₅⟩ := of_run_number_bind h₄
    obtain ⟨rfl, rfl⟩ := of_run_pure h₅
    exact ⟨_, .dashed hys hms hds, by simp⟩
  · obtain ⟨y, ys, _, hys, rfl, h₁⟩ := of_run_number_bind h
    obtain ⟨m, ms, _, hms, rfl, h₂⟩ := of_run_number_bind h₁
    obtain ⟨d, ds, _, hds, rfl, h₃⟩ := of_run_number_bind h₂
    obtain ⟨rfl, rfl⟩ := of_run_pure h₃
    exact ⟨_, .plain hys hms hds, by simp⟩

private theorem of_run_weekDay {name : DayName} (h : weekDay.run text = some (name, rest)) :
    ∃ front, name.Written front ∧ text = front ++ rest := by
  obtain ⟨y, ys, _, hys, rfl, h₁⟩ := of_run_number_bind h
  obtain ⟨dash, _, _, hdash, rfl, h₂⟩ := of_run_optional_char_bind h₁
  obtain ⟨letter, _, hw, rfl, h₃⟩ := of_run_satisfying_bind h₂
  obtain ⟨w, ws, _, hws, rfl, h₄⟩ := of_run_number_bind h₃
  obtain ⟨weekday, _, hweekday, h₅⟩ := of_run_bind h₄
  obtain ⟨rfl, rfl⟩ := of_run_pure h₅
  have hletter : letter = 'W' ∨ letter = 'w' := of_decide_eq_true hw
  rcases of_run_orElse hweekday with h₆ | h₆
  · obtain ⟨dash', _, _, hdash', rfl, h₇⟩ := of_run_optional_char_bind h₆
    obtain ⟨digit, _, hdigit, rfl, h₈⟩ := of_run_satisfying_bind h₇
    obtain ⟨rfl, rfl⟩ := of_run_pure h₈
    obtain ⟨hlo, hhi⟩ : '1' ≤ digit ∧ digit ≤ '7' := of_decide_eq_true hdigit
    exact ⟨_, .weekday hys hdash hletter hws hdash' hlo hhi, by simp⟩
  · obtain ⟨rfl, rfl⟩ := of_run_pure h₆
    exact ⟨_, .week hys hdash hletter hws, by simp⟩

private theorem of_run_isoDay {name : DayName} (h : isoDay.run text = some (name, rest)) :
    ∃ front, name.Written front ∧ text = front ++ rest := by
  rcases of_run_orElse h with h | h
  · exact of_run_calendarDay h
  rcases of_run_orElse h with h | h
  · exact of_run_weekDay h
  rcases of_run_orElse h with h | h
  · obtain ⟨y, ys, _, hys, rfl, h₁⟩ := of_run_number_bind h
    obtain ⟨dash, _, _, hdash, rfl, h₂⟩ := of_run_optional_char_bind h₁
    obtain ⟨n, ns, _, hns, rfl, h₃⟩ := of_run_number_bind h₂
    obtain ⟨rfl, rfl⟩ := of_run_pure h₃
    exact ⟨_, .ordinal hys hdash hns, by simp⟩
  rcases of_run_orElse h with h | h
  · obtain ⟨y, ys, _, hys, rfl, h₁⟩ := of_run_number_bind h
    obtain ⟨_, rfl, h₂⟩ := of_run_char_bind h₁
    obtain ⟨m, ms, _, hms, rfl, h₃⟩ := of_run_number_bind h₂
    obtain ⟨rfl, rfl⟩ := of_run_pure h₃
    exact ⟨_, .month hys hms, by simp⟩
  · rw [wholeYear, StateT.run_map] at h
    obtain ⟨⟨y, later⟩, hy, h⟩ := Option.map_eq_some_iff.mp h
    obtain ⟨rfl, rfl⟩ := Prod.mk.inj h
    obtain ⟨ys, hys, rfl⟩ := of_run_number hy
    exact ⟨_, .year hys, rfl⟩

private theorem of_run_zoneOffset {zone : ZoneOffset}
    (h : zoneOffset.run text = some (zone, rest)) :
    ∃ front, zone.Written front ∧ text = front ++ rest := by
  rcases of_run_orElse h with h | h
  · obtain ⟨_, rfl, h₁⟩ := of_run_char_bind h
    obtain ⟨rfl, rfl⟩ := of_run_pure h₁
    exact ⟨_, .utc, rfl⟩
  obtain ⟨sign, _, hs, rfl, h₁⟩ := of_run_satisfying_bind h
  obtain ⟨hour, hours, _, hhours, rfl, h₂⟩ := of_run_number_bind h₁
  obtain ⟨minute, _, hminute, h₃⟩ := of_run_bind h₂
  obtain ⟨rfl, rfl⟩ := of_run_pure h₃
  have hsign : sign = '+' ∨ sign = '-' := of_decide_eq_true hs
  rcases of_run_orElse hminute with h₄ | h₄
  · obtain ⟨colon, _, _, hcolon, rfl, h₅⟩ := of_run_optional_char_bind h₄
    obtain ⟨ms, hms, rfl⟩ := of_run_number h₅
    exact ⟨_, .minutes hsign hhours hcolon hms, by simp⟩
  · obtain ⟨rfl, rfl⟩ := of_run_pure h₄
    exact ⟨_, .hours hsign hhours, by simp⟩

private theorem of_run_digitRun {ds : List Char} (h : digitRun.run text = some (ds, rest)) :
    ds ≠ [] ∧ (∀ c ∈ ds, c.isDigit) ∧ text = ds ++ rest := by
  have hall : ∀ c ∈ text.takeWhile Char.isDigit, c.isDigit := fun _ => List.mem_takeWhile_imp
  have happend := (List.takeWhile_append_dropWhile (p := Char.isDigit) (l := text)).symm
  rw [StateT.run, digitRun] at h
  split at h
  · exact nomatch h
  · next d others hrun =>
    obtain ⟨rfl, rfl⟩ := Prod.mk.inj (Option.some.inj h)
    rw [hrun] at hall happend
    exact ⟨List.cons_ne_nil d others, hall, happend⟩

private theorem of_run_seconds {s : Nat} {ds : List Char}
    (h : (seconds <|> pure (0, [])).run text = some ((s, ds), rest)) :
    ∃ front, ClockTime.SecondsWritten s ds front ∧ text = front ++ rest := by
  rcases of_run_orElse h with h | h
  · obtain ⟨colon, _, _, hcolon, rfl, h₁⟩ := of_run_optional_char_bind h
    obtain ⟨n, ss, _, hss, rfl, h₂⟩ := of_run_number_bind h₁
    obtain ⟨run, _, hfraction, h₃⟩ := of_run_bind h₂
    obtain ⟨hpair, rfl⟩ := of_run_pure h₃
    obtain ⟨rfl, rfl⟩ := Prod.mk.inj hpair
    rcases of_run_orElse hfraction with h₄ | h₄
    · obtain ⟨point, _, hp, rfl, h₅⟩ := of_run_satisfying_bind h₄
      obtain ⟨hne, hdigits, rfl⟩ := of_run_digitRun h₅
      have hpoint : point = '.' ∨ point = ',' := of_decide_eq_true hp
      exact ⟨_, .fraction hcolon hss hpoint hne hdigits, by simp⟩
    · obtain ⟨rfl, rfl⟩ := of_run_pure h₄
      exact ⟨_, .whole hcolon hss, by simp⟩
  · obtain ⟨hpair, rfl⟩ := of_run_pure h
    obtain ⟨rfl, rfl⟩ := Prod.mk.inj hpair
    exact ⟨_, .absent, rfl⟩

private theorem of_run_minutes {m s : Nat} {ds : List Char}
    (h : (minutes <|> pure (0, 0, [])).run text = some ((m, s, ds), rest)) :
    ∃ front, ClockTime.MinutesWritten m s ds front ∧ text = front ++ rest := by
  rcases of_run_orElse h with h | h
  · obtain ⟨colon, _, _, hcolon, rfl, h₁⟩ := of_run_optional_char_bind h
    obtain ⟨n, ms, _, hms, rfl, h₂⟩ := of_run_number_bind h₁
    obtain ⟨⟨s', ds'⟩, _, hseconds, h₃⟩ := of_run_bind h₂
    obtain ⟨htriple, rfl⟩ := of_run_pure h₃
    obtain ⟨rfl, hpair⟩ := Prod.mk.inj htriple
    obtain ⟨rfl, rfl⟩ := Prod.mk.inj hpair
    obtain ⟨front, hfront, rfl⟩ := of_run_seconds hseconds
    exact ⟨_, .present hcolon hms hfront, by simp⟩
  · obtain ⟨htriple, rfl⟩ := of_run_pure h
    obtain ⟨rfl, hpair⟩ := Prod.mk.inj htriple
    obtain ⟨rfl, rfl⟩ := Prod.mk.inj hpair
    exact ⟨_, .absent, rfl⟩

private theorem of_run_clockTime {time : ClockTime}
    (h : clockTime.run text = some (time, rest)) :
    ∃ front, time.Written front ∧ text = front ++ rest := by
  obtain ⟨letter, _, ht, rfl, h₁⟩ := of_run_satisfying_bind h
  obtain ⟨hour, hours, _, hhours, rfl, h₂⟩ := of_run_number_bind h₁
  obtain ⟨⟨m, s, ds⟩, _, hminutes, h₃⟩ := of_run_bind h₂
  obtain ⟨zone, _, hzone, h₄⟩ := of_run_bind h₃
  obtain ⟨rfl, rfl⟩ := of_run_pure h₄
  obtain ⟨minutes, hm, rfl⟩ := of_run_minutes hminutes
  have hletter : letter = 'T' ∨ letter = 't' := of_decide_eq_true ht
  rcases of_run_optional hzone with ⟨rfl, rfl⟩ | ⟨offset, rfl, hoffset⟩
  · exact ⟨_, .intro hletter hhours hm .absent, by simp⟩
  · obtain ⟨zs, hzs, rfl⟩ := of_run_zoneOffset hoffset
    exact ⟨_, .intro hletter hhours hm (.present hzs), by simp⟩

private theorem of_run_atEnd_bind {β : Type} {f : Unit → Reader β} {b : β}
    (h : (atEnd >>= f).run text = some (b, rest)) :
    text = [] ∧ (f ()).run [] = some (b, rest) := by
  cases text with
  | nil => exact ⟨rfl, h⟩
  | cons c tail => exact nomatch h

private theorem of_run_isoDate {spelling : Spelling}
    (h : isoDate.run text = some (spelling, rest)) : spelling.Written text := by
  obtain ⟨name, _, hname, h₁⟩ := of_run_bind h
  obtain ⟨time, _, htime, h₂⟩ := of_run_bind h₁
  obtain ⟨rfl, h₃⟩ := of_run_atEnd_bind h₂
  obtain ⟨rfl, -⟩ := of_run_pure h₃
  obtain ⟨front, hfront, rfl⟩ := of_run_isoDay hname
  rcases of_run_optional htime with ⟨rfl, rfl⟩ | ⟨clock, rfl, hclock⟩
  · rw [List.append_nil]
    exact .day hfront
  · obtain ⟨later, hlater, rfl⟩ := of_run_clockTime hclock
    rw [List.append_nil]
    exact .dayAndTime hfront hlater

private theorem of_run_separated {c : Char} {spelling : Spelling}
    (h : (do
      let y ← year
      let _ ← char c
      let m ← shortNumber
      let _ ← char c
      let d ← shortNumber
      pure (.outdated y m d) : Reader Spelling).run text = some (spelling, rest)) :
    ∃ y m d ys ms ds, Writes 4 y ys ∧ WritesShort m ms ∧ WritesShort d ds ∧
      spelling = .outdated y m d ∧ text = ys ++ c :: (ms ++ c :: ds) ++ rest := by
  obtain ⟨y, ys, _, hys, rfl, h₁⟩ := of_run_number_bind h
  obtain ⟨_, rfl, h₂⟩ := of_run_char_bind h₁
  obtain ⟨m, ms, _, hms, rfl, h₃⟩ := of_run_shortNumber_bind h₂
  obtain ⟨_, rfl, h₄⟩ := of_run_char_bind h₃
  obtain ⟨d, ds, _, hds, rfl, h₅⟩ := of_run_shortNumber_bind h₄
  obtain ⟨rfl, rfl⟩ := of_run_pure h₅
  exact ⟨y, m, d, ys, ms, ds, hys, hms, hds, rfl, by simp⟩

private theorem of_run_outdatedDate {spelling : Spelling}
    (h : outdatedDate.run text = some (spelling, rest)) : spelling.Written text := by
  obtain ⟨date, _, hdate, h₁⟩ := of_run_bind h
  obtain ⟨rfl, h₂⟩ := of_run_atEnd_bind h₁
  obtain ⟨rfl, -⟩ := of_run_pure h₂
  rcases of_run_orElse hdate with h | h
  · obtain ⟨y, m, d, ys, ms, ds, hys, hms, hds, rfl, rfl⟩ := of_run_separated h
    rw [List.append_nil]
    exact .slashed hys hms hds
  rcases of_run_orElse h with h | h
  · obtain ⟨m, ms, _, hms, rfl, h₁⟩ := of_run_shortNumber_bind h
    obtain ⟨_, rfl, h₂⟩ := of_run_char_bind h₁
    obtain ⟨d, ds, _, hds, rfl, h₃⟩ := of_run_shortNumber_bind h₂
    obtain ⟨_, rfl, h₄⟩ := of_run_char_bind h₃
    obtain ⟨y, ys, _, hys, rfl, h₅⟩ := of_run_number_bind h₄
    obtain ⟨rfl, rfl⟩ := of_run_pure h₅
    rw [List.append_nil]
    exact .monthFirst hms hds hys
  rcases of_run_orElse h with h | h
  · obtain ⟨y, m, d, ys, ms, ds, hys, hms, hds, rfl, rfl⟩ := of_run_separated h
    rw [List.append_nil]
    exact .loose hys hms hds
  · obtain ⟨y, ys, _, hys, rfl, h₁⟩ := of_run_number_bind h
    obtain ⟨m, ms, _, hms, rfl, h₂⟩ := of_run_number_bind h₁
    obtain ⟨rfl, rfl⟩ := of_run_pure h₂
    rw [List.append_nil]
    exact .compact hys hms

end Reader

theorem Spelling.written_of_read? {text : String} {spelling : Spelling}
    (h : Spelling.read? text = some spelling) : spelling.Written text.toList := by
  obtain ⟨⟨found, rest⟩, hrun, rfl⟩ := Option.map_eq_some_iff.mp h
  rcases Reader.of_run_orElse hrun with hrun | hrun
  · exact Reader.of_run_isoDate hrun
  · exact Reader.of_run_outdatedDate hrun

end DayRoster
