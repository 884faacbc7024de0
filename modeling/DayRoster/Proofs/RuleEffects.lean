import DayRoster.Proofs.AgendaWrites
import Mathlib.Data.List.Perm.Basic
import Mathlib.Order.MinMax

/-!
What a list of rules does to an agenda. The state of a day is the one that the last rule that writes
it gives, whatever the agenda was before, and a day that no rule writes keeps its state. The extent
takes in the touched days in any order, and stays as it is exactly if it has all of them already.
-/

set_option autoImplicit false

namespace DayRoster

namespace Extent

def Spans (extent : Option Extent) (d : Date) : Prop :=
  ∃ now ∈ extent, now.least ≤ d ∧ d ≤ now.greatest

variable {extent : Option Extent} {d : Date}

theorem touch_comm (extent : Option Extent) (d e : Date) :
    touch (touch extent d) e = touch (touch extent e) d := by
  cases extent with
  | none =>
    have hleast : min d e = min e d := min_comm d e
    have hgreatest : max d e = max e d := max_comm d e
    exact congrArg some (Extent.ext hleast hgreatest)
  | some now =>
    have hleast : min (min now.least d) e = min (min now.least e) d := min_right_comm _ d e
    have hgreatest : max (max now.greatest d) e = max (max now.greatest e) d :=
      max_right_comm _ d e
    exact congrArg some (Extent.ext hleast hgreatest)

instance : RightCommutative touch := ⟨touch_comm⟩

theorem touch_eq_self_iff : touch extent d = extent ↔ Spans extent d := by
  cases extent with
  | none => simp [touch, Spans]
  | some now =>
    have hleast : min now.least d = now.least ↔ now.least ≤ d := min_eq_left_iff
    have hgreatest : max now.greatest d = now.greatest ↔ d ≤ now.greatest := max_eq_left_iff
    rw [touch, Option.some.injEq, Extent.ext_iff, hleast, hgreatest]
    simp [Spans]

theorem spans_touch (extent : Option Extent) (d : Date) : Spans (touch extent d) d := by
  cases extent with
  | none => exact ⟨_, rfl, le_refl d, le_refl d⟩
  | some now => exact ⟨_, rfl, min_le_right _ _, le_max_right _ _⟩

theorem Spans.touch (h : Spans extent d) (e : Date) : Spans (touch extent e) d := by
  obtain ⟨now, hnow, hlo, hhi⟩ := h
  obtain rfl : extent = some now := hnow
  exact ⟨_, rfl, (min_le_left _ _).trans hlo, hhi.trans (le_max_left _ _)⟩

theorem Spans.foldl_touch (h : Spans extent d) (days : List Date) :
    Spans (days.foldl Extent.touch extent) d := by
  induction days generalizing extent with
  | nil => exact h
  | cons e days ih =>
    rw [List.foldl_cons]
    exact ih (h.touch e)

theorem spans_foldl_touch {days : List Date} (h : d ∈ days) (extent : Option Extent) :
    Spans (days.foldl touch extent) d := by
  induction days generalizing extent with
  | nil => simp at h
  | cons e days ih =>
    rw [List.foldl_cons]
    rcases List.mem_cons.mp h with rfl | h
    · exact (spans_touch extent d).foldl_touch days
    · exact ih h _

theorem foldl_touch_eq_self_iff {days : List Date} :
    days.foldl touch extent = extent ↔ ∀ d ∈ days, Spans extent d := by
  constructor
  · intro h d hd
    have hspans := spans_foldl_touch hd extent
    rwa [h] at hspans
  · intro h
    induction days with
    | nil => rfl
    | cons d days ih =>
      rw [List.foldl_cons, touch_eq_self_iff.mpr (h d List.mem_cons_self)]
      exact ih fun e he => h e (List.mem_cons_of_mem d he)

/-- Neither the order of the days nor their repetitions matter. -/
theorem foldl_touch_congr {days others : List Date} (h : ∀ d, d ∈ days ↔ d ∈ others)
    (extent : Option Extent) : days.foldl touch extent = others.foldl touch extent := by
  -- Each of the two lists adds nothing to what the other one took in.
  have hdays : others.foldl touch (days.foldl touch extent) = days.foldl touch extent :=
    foldl_touch_eq_self_iff.mpr fun d hd => spans_foldl_touch ((h d).mpr hd) extent
  have hothers : days.foldl touch (others.foldl touch extent) = others.foldl touch extent :=
    foldl_touch_eq_self_iff.mpr fun d hd => spans_foldl_touch ((h d).mp hd) extent
  calc days.foldl touch extent
      = (days ++ others).foldl touch extent := by rw [List.foldl_append, hdays]
    _ = (others ++ days).foldl touch extent := List.perm_append_comm.foldl_eq extent
    _ = others.foldl touch extent := by rw [List.foldl_append, hothers]

end Extent

namespace Agenda

variable {agenda other : Agenda} {rule : Rule} {rules : List Rule} {d : Date}

def Spans (agenda : Agenda) (d : Date) : Prop :=
  ∃ first last, agenda.firstTouched? = some first ∧ agenda.lastTouched? = some last ∧
    first ≤ d ∧ d ≤ last

theorem spans_iff : agenda.Spans d ↔ Extent.Spans agenda.extent d := by
  rw [Spans, firstTouched?, lastTouched?]
  cases agenda.extent with
  | none => simp [Extent.Spans]
  | some now => simp [Extent.Spans]

theorem ext_state (hstate : ∀ d, agenda.state? d = other.state? d)
    (hextent : agenda.extent = other.extent) (hsettings : agenda.settings = other.settings) :
    agenda = other :=
  Agenda.ext (Std.ExtTreeMap.ext_getElem? hstate) hextent hsettings

theorem extent_foldl_write (enabled : Bool) (filter : Option WeekPattern)
    (days : List Date) (agenda : Agenda) :
    (days.foldl (fun agenda d => agenda.write d enabled filter) agenda).extent =
      days.foldl Extent.touch agenda.extent := by
  induction days generalizing agenda with
  | nil => rfl
  | cons d days ih =>
    rw [List.foldl_cons, List.foldl_cons, ih]
    rfl

theorem extent_apply (agenda : Agenda) (rule : Rule) :
    (agenda.apply rule).extent =
      (Date.range rule.start rule.stop).foldl Extent.touch agenda.extent :=
  extent_foldl_write _ _ _ agenda

theorem extent_foldl_apply (rules : List Rule) (agenda : Agenda) :
    (rules.foldl Agenda.apply agenda).extent =
      (rules.flatMap fun rule => Date.range rule.start rule.stop).foldl Extent.touch
        agenda.extent := by
  induction rules generalizing agenda with
  | nil => rfl
  | cons rule rules ih =>
    rw [List.foldl_cons, ih, extent_apply, List.flatMap_cons, List.foldl_append]

theorem extent_foldl_apply_perm {others : List Rule} (h : rules.Perm others) (agenda : Agenda) :
    (rules.foldl Agenda.apply agenda).extent = (others.foldl Agenda.apply agenda).extent := by
  rw [extent_foldl_apply, extent_foldl_apply]
  exact (h.flatMap_right _).foldl_eq _

theorem extent_apply_eq_self_iff :
    (agenda.apply rule).extent = agenda.extent ↔ ∀ d, rule.Touches d → agenda.Spans d := by
  rw [extent_apply, Extent.foldl_touch_eq_self_iff]
  constructor
  · intro h d hd
    exact spans_iff.mpr (h d (Date.mem_range_iff.mpr hd))
  · intro h d hd
    exact spans_iff.mp (h d (Date.mem_range_iff.mp hd))

theorem spans_foldl_apply (hrule : rule ∈ rules) (hd : rule.Touches d) (agenda : Agenda) :
    (rules.foldl Agenda.apply agenda).Spans d := by
  rw [spans_iff, extent_foldl_apply]
  apply Extent.spans_foldl_touch
  rw [List.mem_flatMap]
  exact ⟨rule, hrule, Date.mem_range_iff.mpr hd⟩

theorem settings_foldl_apply (rules : List Rule) (agenda : Agenda) :
    (rules.foldl Agenda.apply agenda).settings = agenda.settings :=
  settings_foldl settings_apply rules agenda

theorem state?_foldl_apply_of_not_writes (h : ∀ rule ∈ rules, ¬ rule.Writes agenda.settings d) :
    (rules.foldl Agenda.apply agenda).state? d = agenda.state? d := by
  induction rules generalizing agenda with
  | nil => rfl
  | cons rule rules ih =>
    rw [List.foldl_cons, ih, state?_apply_of_not_writes agenda (h rule List.mem_cons_self)]
    intro later hlater
    rw [settings_apply]
    exact h later (List.mem_cons_of_mem rule hlater)

/-- Once a rule writes a day, it does not matter which state the day had before. -/
theorem state?_foldl_apply_of_writes (hsettings : agenda.settings = other.settings)
    (h : ∃ rule ∈ rules, rule.Writes agenda.settings d) :
    (rules.foldl Agenda.apply agenda).state? d = (rules.foldl Agenda.apply other).state? d := by
  induction rules generalizing agenda other with
  | nil => simp at h
  | cons rule rules ih =>
    rw [List.foldl_cons, List.foldl_cons]
    by_cases hlater : ∃ later ∈ rules, later.Writes agenda.settings d
    · apply ih
      · rw [settings_apply, settings_apply, hsettings]
      · rwa [settings_apply]
    -- The rule in front is the last one that writes the day.
    · have hnone : ∀ later ∈ rules, ¬ later.Writes agenda.settings d :=
        fun later hmem hwrites => hlater ⟨later, hmem, hwrites⟩
      have hwrites : rule.Writes agenda.settings d := by
        obtain ⟨writer, hwriter, hwrites⟩ := h
        rcases List.mem_cons.mp hwriter with rfl | hwriter
        · exact hwrites
        · exact absurd hwrites (hnone writer hwriter)
      rw [state?_foldl_apply_of_not_writes (by rwa [settings_apply]),
        state?_foldl_apply_of_not_writes (by rwa [settings_apply, ← hsettings]),
        state?_apply_of_writes agenda hwrites, state?_apply_of_writes other (hsettings ▸ hwrites)]

end Agenda

end DayRoster
