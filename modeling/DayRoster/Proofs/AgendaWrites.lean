import DayRoster.Agenda
import DayRoster.Proofs.DateRange
import Mathlib.Data.Finset.Card
import Mathlib.Data.Int.Interval
import Mathlib.Order.Bounds.Basic

/-!
What writing a day or a range of days does to an agenda. The state of a day is replaced if the
range covers the day and the filter lets it pass. The extent of an agenda follows the set of touched
days: `Agenda.Tracks` says that it is their least and greatest day and that only touched days are
stored. The enabled days stand in ascending order, and as there are fewer supported days than 32
bits count, their number is exact.
-/

set_option autoImplicit false

namespace DayRoster

/-- The days that a filter lets pass: all days if there is no filter or an empty one, else those
whose position in the week it has. -/
def Settings.Passes (settings : Settings) (filter : Option WeekPattern) (d : Date) : Prop :=
  ∀ weekdays ∈ filter, weekdays.positions = [] ∨ settings.position d ∈ weekdays.positions

/-- The days that a rule touches: the days of its span, but for the last supported day. -/
def Rule.Touches (rule : Rule) (d : Date) : Prop := Date.Covers rule.start rule.stop d

def Rule.Writes (rule : Rule) (settings : Settings) (d : Date) : Prop :=
  rule.Touches d ∧ settings.Passes (some rule.weekdays) d

theorem Settings.passes_filter?_iff {settings : Settings} {rule : Rule} {d : Date} :
    settings.Passes rule.filter? d ↔ settings.Passes (some rule.weekdays) d := by
  rw [Rule.filter?]
  by_cases hempty : rule.weekdays.isEmpty
  · have hnil : rule.weekdays.positions = [] := List.isEmpty_iff.mp hempty
    simp [hempty, Passes, hnil]
  · rw [if_neg hempty]

/-- The extent of a set of days, which only the empty set lacks. -/
def IsExtent (touched : Set Date) : Option Extent → Prop
  | none => touched = ∅
  | some extent => IsLeast touched extent.least ∧ IsGreatest touched extent.greatest

theorem IsExtent.insert {touched : Set Date} {extent : Option Extent} (h : IsExtent touched extent)
    (d : Date) : IsExtent (insert d touched) (Extent.touch extent d) := by
  cases extent with
  | none =>
    have hempty : touched = ∅ := h
    subst hempty
    rw [insert_empty_eq]
    exact ⟨isLeast_singleton, isGreatest_singleton⟩
  | some extent =>
    obtain ⟨hleast, hgreatest⟩ := h
    refine ⟨?_, ?_⟩
    · change IsLeast _ (min extent.least d)
      rw [min_comm]
      exact hleast.insert d
    · change IsGreatest _ (max extent.greatest d)
      rw [max_comm]
      exact hgreatest.insert d

theorem IsExtent.of_mem {touched : Set Date} {extent : Option Extent} (h : IsExtent touched extent)
    {d : Date} (hd : d ∈ touched) :
    ∃ now, extent = some now ∧ IsLeast touched now.least ∧ IsGreatest touched now.greatest := by
  cases extent with
  | none =>
    have hempty : touched = ∅ := h
    exact absurd hd (hempty ▸ Set.notMem_empty d)
  | some now => exact ⟨now, rfl, h⟩

namespace Agenda

variable (agenda : Agenda) (enabled : Bool) (filter : Option WeekPattern)

theorem admits_iff {d : Date} : agenda.admits filter d ↔ agenda.settings.Passes filter d := by
  cases filter <;> simp [admits, Settings.Passes, WeekPattern.admits, WeekPattern.isEmpty]

theorem settings_foldl {α : Type} {f : Agenda → α → Agenda}
    (hf : ∀ agenda x, (f agenda x).settings = agenda.settings) (xs : List α) (agenda : Agenda) :
    (xs.foldl f agenda).settings = agenda.settings := by
  induction xs generalizing agenda with
  | nil => rfl
  | cons x xs ih => rw [List.foldl_cons, ih, hf]

theorem settings_foldl_write (days : List Date) :
    (days.foldl (fun agenda d => agenda.write d enabled filter) agenda).settings =
      agenda.settings :=
  settings_foldl (fun agenda d => agenda.settings_write d enabled filter) days agenda

@[simp] theorem settings_writeRange (start stop : Date) :
    (agenda.writeRange start stop enabled filter).settings = agenda.settings :=
  agenda.settings_foldl_write enabled filter _

@[simp] theorem settings_apply (rule : Rule) :
    (agenda.apply rule).settings = agenda.settings := by
  rw [apply, settings_writeRange]

theorem state?_foldl_write (days : List Date) (d : Date) :
    (days.foldl (fun agenda d => agenda.write d enabled filter) agenda).state? d =
      if d ∈ days ∧ agenda.admits filter d then some enabled else agenda.state? d := by
  induction days generalizing agenda with
  | nil => simp
  | cons e days ih =>
    have hadmits : (agenda.write e enabled filter).admits filter d = agenda.admits filter d := rfl
    rw [List.foldl_cons, ih, hadmits, state?_write]
    by_cases hmem : d ∈ days ∧ agenda.admits filter d
    · rw [if_pos hmem, if_pos ⟨List.mem_cons_of_mem e hmem.1, hmem.2⟩]
    · rw [if_neg hmem]
      by_cases heq : e = d
      · subst heq
        simp
      · rw [if_neg fun h => heq h.1, if_neg]
        rintro ⟨hd, hpass⟩
        rcases List.mem_cons.mp hd with rfl | hd
        · exact heq rfl
        · exact hmem ⟨hd, hpass⟩

-- All writes of one range write the same state, so it does not matter which of them is the last.
theorem state?_writeRange (start stop d : Date) :
    (agenda.writeRange start stop enabled filter).state? d =
      if Date.Covers start stop d ∧ agenda.admits filter d then some enabled
      else agenda.state? d := by
  rw [writeRange, state?_foldl_write]
  simp only [Date.mem_range_iff]

theorem state?_apply_of_writes {rule : Rule} {d : Date} (h : rule.Writes agenda.settings d) :
    (agenda.apply rule).state? d = some rule.effect.enables := by
  obtain ⟨htouches, hpasses⟩ := h
  rw [apply, state?_writeRange, if_pos]
  exact ⟨htouches, (agenda.admits_iff _).mpr (Settings.passes_filter?_iff.mpr hpasses)⟩

theorem state?_apply_of_not_writes {rule : Rule} {d : Date} (h : ¬ rule.Writes agenda.settings d) :
    (agenda.apply rule).state? d = agenda.state? d := by
  rw [apply, state?_writeRange, if_neg]
  rintro ⟨htouches, hadmits⟩
  exact h ⟨htouches, Settings.passes_filter?_iff.mp ((agenda.admits_iff _).mp hadmits)⟩

/-- The extent is that of a set of touched days, and no other day is stored. -/
structure Tracks (touched : Set Date) : Prop where
  isExtent : IsExtent touched agenda.extent
  stored : ∀ d, agenda.state? d ≠ none → d ∈ touched

theorem tracks_clear : agenda.clear.Tracks ∅ where
  isExtent := rfl
  stored d h := absurd (state?_clear agenda d) h

variable {agenda} {touched : Set Date}

/-- A day is touched whether or not the filter lets it be written. -/
theorem Tracks.write (h : agenda.Tracks touched) (d : Date) :
    (agenda.write d enabled filter).Tracks (insert d touched) where
  isExtent := h.isExtent.insert d
  stored e he := by
    rw [state?_write] at he
    split at he
    · next hwritten => exact .inl hwritten.1.symm
    · exact .inr (h.stored e he)

private theorem Tracks.foldl_write (h : agenda.Tracks touched) (days : List Date) :
    (days.foldl (fun agenda d => agenda.write d enabled filter) agenda).Tracks
      ({d | d ∈ days} ∪ touched) := by
  induction days generalizing agenda touched with
  | nil => simpa using h
  | cons d days ih =>
    have hset : {e | e ∈ d :: days} ∪ touched = {e | e ∈ days} ∪ insert d touched := by
      ext e
      simp only [Set.mem_union, Set.mem_ofPred_eq, List.mem_cons, Set.mem_insert_iff]
      rw [or_left_comm, or_assoc]
    rw [List.foldl_cons, hset]
    exact ih (h.write enabled filter d)

theorem Tracks.writeRange (h : agenda.Tracks touched) (start stop : Date) :
    (agenda.writeRange start stop enabled filter).Tracks
      ({d | Date.Covers start stop d} ∪ touched) := by
  have hset : {d | Date.Covers start stop d} = {d | d ∈ Date.range start stop} :=
    Set.ext fun _ => Date.mem_range_iff.symm
  rw [hset]
  exact h.foldl_write enabled filter _

end Agenda

private theorem Date.length_le_of_nodup {dates : List Date} (h : dates.Nodup) :
    dates.length ≤ (Year.start 262143 - Year.start (-262143)).toNat := by
  have hnumbers : (dates.map Date.dayNumber).Nodup :=
    h.map fun a b hab => Date.ext hab
  have hsub : (dates.map Date.dayNumber).toFinset ⊆
      Finset.Ico (Year.start (-262143)) (Year.start 262143) := by
    intro n hn
    obtain ⟨d, -, rfl⟩ := List.mem_map.mp (List.mem_toFinset.mp hn)
    exact Finset.mem_Ico.mpr d.supported
  have hcard := Finset.card_le_card hsub
  rwa [List.toFinset_card_of_nodup hnumbers, List.length_map, Int.card_Ico] at hcard

namespace Agenda

section EnabledDays

variable (agenda : Agenda)

theorem mem_enabledDays_iff {d : Date} :
    d ∈ agenda.enabledDays ↔ agenda.state? d = some true := by
  simp only [enabledDays, List.mem_map, List.mem_filter, Prod.exists,
    Std.ExtTreeMap.mem_toList_iff_getElem?_eq_some]
  constructor
  · rintro ⟨e, enabled, ⟨hstored, rfl⟩, rfl⟩
    exact hstored
  · intro hstored
    exact ⟨d, true, ⟨hstored, rfl⟩, rfl⟩

theorem isEnabled_iff_mem {d : Date} : agenda.isEnabled d ↔ d ∈ agenda.enabledDays := by
  rw [mem_enabledDays_iff, isEnabled]
  cases agenda.state? d <;> simp

theorem pairwise_enabledDays : agenda.enabledDays.Pairwise (· < ·) := by
  have hordered := Std.ExtTreeMap.ordered_keys_toList (t := agenda.days)
  refine List.pairwise_map.mpr ((hordered.sublist List.filter_sublist).imp ?_)
  exact compare_lt_iff_lt.mp

private theorem length_enabledDays_lt : agenda.enabledDays.length < 2 ^ 32 := by
  have hle := Date.length_le_of_nodup (agenda.pairwise_enabledDays.imp ne_of_lt)
  have hspan : (Year.start 262143 - Year.start (-262143)).toNat < 2 ^ 32 := by decide
  exact Nat.lt_of_le_of_lt hle hspan

theorem toNat_enabledCount : agenda.enabledCount.toNat = agenda.enabledDays.length := by
  have hcount : agenda.days.toList.countP Prod.snd = agenda.enabledDays.length := by
    rw [enabledDays, List.length_map, List.countP_eq_length_filter]
  rw [enabledCount, hcount]
  exact UInt32.toNat_ofNat_of_lt' agenda.length_enabledDays_lt

end EnabledDays

end Agenda

end DayRoster
