import DayRoster.Proofs.AgendaWrites
import Mathlib.Data.List.Induction

/-!
The state of a day after a history of steps, told from the history alone: it is what the last step
that writes the day writes, among the steps that are not forgotten since. Which days pass a filter
depends on the settings that were in force at that step.
-/

set_option autoImplicit false

namespace DayRoster.Agenda

inductive Step where
  | clear
  | enableOnly (start stop : Date)
  | write (d : Date) (enabled : Bool) (filter : Option WeekPattern)
  | writeRange (start stop : Date) (enabled : Bool) (filter : Option WeekPattern)
  | apply (rule : Rule)
  | withSettings (settings : Settings)

namespace Step

def perform (agenda : Agenda) : Step → Agenda
  | clear => agenda.clear
  | enableOnly start stop => agenda.enableOnly start stop
  | write d enabled filter => agenda.write d enabled filter
  | writeRange start stop enabled filter => agenda.writeRange start stop enabled filter
  | apply rule => agenda.apply rule
  | withSettings settings => agenda.withSettings settings

def Resets : Step → Prop
  | clear | enableOnly _ _ => True
  | _ => False

def settings? : Step → Option Settings
  | withSettings settings => some settings
  | _ => none

/-- Steps that give a day a state, under the settings in force. -/
inductive Writes (settings : Settings) (d : Date) : Step → Bool → Prop
  | enableOnly {start stop : Date} : Date.Covers start stop d →
      Writes settings d (enableOnly start stop) true
  | write {enabled : Bool} {filter : Option WeekPattern} : settings.Passes filter d →
      Writes settings d (write d enabled filter) enabled
  | writeRange {start stop : Date} {enabled : Bool} {filter : Option WeekPattern} :
      Date.Covers start stop d → settings.Passes filter d →
      Writes settings d (writeRange start stop enabled filter) enabled
  | apply {rule : Rule} : Date.Covers rule.start rule.stop d →
      settings.Passes (some rule.weekdays) d → Writes settings d (apply rule) rule.effect.enables

end Step

def run (steps : List Step) : Agenda := steps.foldl Step.perform {}

def settingsInForce (steps : List Step) : Settings := (steps.filterMap Step.settings?).getLastD {}

/-- A history has a step at a place, and no step after it resets. -/
def KeptAt {α : Type} (resets : α → Prop) (steps : List α) (place : Nat) (step : α) : Prop :=
  steps[place]? = some step ∧ ∀ later > place, ∀ next ∈ steps[later]?, ¬ resets next

/-- The step at a place of a history writes a day, and no later step forgets it. -/
def WriteAt (steps : List Step) (d : Date) (place : Nat) (enabled : Bool) : Prop :=
  ∃ step, KeptAt Step.Resets steps place step ∧
    step.Writes (settingsInForce (steps.take place)) d enabled

def LastWrite (steps : List Step) (d : Date) (enabled : Bool) : Prop :=
  ∃ place, WriteAt steps d place enabled ∧
    ∀ other otherEnabled, WriteAt steps d other otherEnabled → other ≤ place

namespace Step

variable {settings : Settings} {agenda : Agenda} {d : Date} {step : Step}

private theorem Writes.unique {enabled other : Bool} (h : step.Writes settings d enabled)
    (hother : step.Writes settings d other) : other = enabled := by
  cases h <;> cases hother <;> rfl

private theorem settings_perform (agenda : Agenda) (step : Step) :
    (step.perform agenda).settings = step.settings?.getD agenda.settings := by
  cases step with
  | clear => rfl
  | enableOnly start stop => exact settings_writeRange agenda.clear true none start stop
  | write d enabled filter => rfl
  | writeRange start stop enabled filter =>
    exact agenda.settings_writeRange enabled filter start stop
  | apply rule => exact agenda.settings_apply rule
  | withSettings settings => rfl

theorem state?_perform_of_writes {enabled : Bool} (h : step.Writes agenda.settings d enabled) :
    (step.perform agenda).state? d = some enabled := by
  cases h with
  | enableOnly hcovers =>
    exact (state?_writeRange agenda.clear true none _ _ d).trans (if_pos ⟨hcovers, rfl⟩)
  | write hpasses =>
    exact (state?_write agenda d d _ _).trans (if_pos ⟨rfl, admits_iff agenda _ |>.mpr hpasses⟩)
  | writeRange hcovers hpasses =>
    exact (state?_writeRange agenda _ _ _ _ d).trans
      (if_pos ⟨hcovers, admits_iff agenda _ |>.mpr hpasses⟩)
  | apply hcovers hpasses => exact state?_apply_of_writes agenda ⟨hcovers, hpasses⟩

theorem state?_perform_of_resets (hresets : step.Resets)
    (h : ∀ enabled, ¬ step.Writes agenda.settings d enabled) :
    (step.perform agenda).state? d = none := by
  cases step with
  | clear => exact state?_clear agenda d
  | enableOnly start stop =>
    have hcovers : ¬ Date.Covers start stop d := fun hcovers => h true (.enableOnly hcovers)
    refine (state?_writeRange agenda.clear true none start stop d).trans ?_
    rw [if_neg fun hboth => hcovers hboth.1, state?_clear]
  | write | writeRange | apply | withSettings => exact hresets.elim

theorem state?_perform_of_not_writes (hresets : ¬ step.Resets)
    (h : ∀ enabled, ¬ step.Writes agenda.settings d enabled) :
    (step.perform agenda).state? d = agenda.state? d := by
  cases step with
  | clear | enableOnly => exact absurd trivial hresets
  | write e enabled filter =>
    refine (state?_write agenda e d enabled filter).trans (if_neg ?_)
    rintro ⟨rfl, hadmits⟩
    exact h enabled (.write ((admits_iff agenda filter).mp hadmits))
  | writeRange start stop enabled filter =>
    refine (state?_writeRange agenda enabled filter start stop d).trans (if_neg ?_)
    rintro ⟨hcovers, hadmits⟩
    exact h enabled (.writeRange hcovers ((admits_iff agenda filter).mp hadmits))
  | apply rule =>
    exact state?_apply_of_not_writes agenda fun ⟨hcovers, hpasses⟩ => h _ (.apply hcovers hpasses)
  | withSettings settings => rfl

end Step

section KeptAt

variable {α : Type} {resets : α → Prop} {steps : List α} {step last : α} {place : Nat}

theorem KeptAt.lt_length (h : KeptAt resets steps place step) : place < steps.length :=
  (List.getElem?_eq_some_iff.mp h.1).1

private theorem KeptAt.le_length (h : KeptAt resets (steps ++ [last]) place step) :
    place ≤ steps.length := by
  have hlt := h.lt_length
  rw [List.length_append, List.length_singleton] at hlt
  exact Nat.le_of_lt_succ hlt

private theorem keptAt_last : KeptAt resets (steps ++ [last]) steps.length last := by
  refine ⟨List.getElem?_concat_length, fun later hlater next hnext => ?_⟩
  have hlt := (List.getElem?_eq_some_iff.mp hnext).1
  rw [List.length_append, List.length_singleton] at hlt
  omega

private theorem KeptAt.concat (h : KeptAt resets steps place step) (hlast : ¬ resets last) :
    KeptAt resets (steps ++ [last]) place step := by
  refine ⟨(List.getElem?_append_left h.lt_length).trans h.1, fun later hlater next hnext => ?_⟩
  rcases Nat.lt_or_ge later steps.length with hlt | hge
  · rw [List.getElem?_append_left hlt] at hnext
    exact h.2 later hlater next hnext
  · have hmem : next ∈ [last] := by
      rw [List.getElem?_append_right hge] at hnext
      exact List.mem_of_getElem? hnext
    rwa [List.mem_singleton.mp hmem]

theorem keptAt_concat_iff : KeptAt resets (steps ++ [last]) place step ↔
    place = steps.length ∧ step = last ∨ ¬ resets last ∧ KeptAt resets steps place step := by
  constructor
  · intro h
    rcases Nat.lt_or_eq_of_le h.le_length with hlt | rfl
    · have hlast := h.2 steps.length hlt last List.getElem?_concat_length
      refine .inr ⟨hlast, (List.getElem?_append_left hlt).symm.trans h.1, ?_⟩
      intro later hlater next hnext
      have hbefore := (List.getElem?_eq_some_iff.mp hnext).1
      exact h.2 later hlater next ((List.getElem?_append_left hbefore).trans hnext)
    · exact .inl ⟨rfl, Option.some.inj (h.1.symm.trans List.getElem?_concat_length)⟩
  · rintro (⟨rfl, rfl⟩ | ⟨hlast, h⟩)
    · exact keptAt_last
    · exact h.concat hlast

end KeptAt

theorem run_concat (steps : List Step) (step : Step) :
    run (steps ++ [step]) = step.perform (run steps) := by
  rw [run, List.foldl_append]
  rfl

private theorem settingsInForce_concat (steps : List Step) (step : Step) :
    settingsInForce (steps ++ [step]) = step.settings?.getD (settingsInForce steps) := by
  rw [settingsInForce, List.filterMap_append]
  cases h : step.settings? <;> simp [settingsInForce, h]

theorem settings_run (steps : List Step) : (run steps).settings = settingsInForce steps := by
  induction steps using List.reverseRecOn with
  | nil => rfl
  | append_singleton steps step ih =>
    rw [run_concat, Step.settings_perform, settingsInForce_concat, ih]

section LastWrite

variable {steps : List Step} {step : Step} {d : Date} {place : Nat} {enabled : Bool}

private theorem WriteAt.lt_length (h : WriteAt steps d place enabled) : place < steps.length := by
  obtain ⟨step, hkept, -⟩ := h
  exact hkept.lt_length

private theorem WriteAt.unique {other : Bool} (h : WriteAt steps d place enabled)
    (hother : WriteAt steps d place other) : other = enabled := by
  obtain ⟨step, hkept, hwrites⟩ := h
  obtain ⟨same, hsame, hwrites'⟩ := hother
  obtain rfl : step = same := Option.some.inj (hkept.1.symm.trans hsame.1)
  exact hwrites.unique hwrites'

private theorem writeAt_concat_iff : WriteAt (steps ++ [step]) d place enabled ↔
    place = steps.length ∧ step.Writes (settingsInForce steps) d enabled ∨
      ¬ step.Resets ∧ WriteAt steps d place enabled := by
  constructor
  · rintro ⟨earlier, hkept, hwrites⟩
    rcases keptAt_concat_iff.mp hkept with ⟨rfl, rfl⟩ | ⟨hlast, hkept⟩
    · rw [List.take_left] at hwrites
      exact .inl ⟨rfl, hwrites⟩
    · rw [List.take_append_of_le_length (Nat.le_of_lt hkept.lt_length)] at hwrites
      exact .inr ⟨hlast, earlier, hkept, hwrites⟩
  · rintro (⟨rfl, hwrites⟩ | ⟨hlast, earlier, hkept, hwrites⟩)
    · exact ⟨step, keptAt_last, by rwa [List.take_left]⟩
    · refine ⟨earlier, hkept.concat hlast, ?_⟩
      rwa [List.take_append_of_le_length (Nat.le_of_lt hkept.lt_length)]

private theorem LastWrite.unique {other : Bool} (h : LastWrite steps d enabled)
    (hother : LastWrite steps d other) : other = enabled := by
  obtain ⟨place, hwrite, hlast⟩ := h
  obtain ⟨otherPlace, hotherWrite, hotherLast⟩ := hother
  obtain rfl : place = otherPlace :=
    Nat.le_antisymm (hotherLast place enabled hwrite) (hlast otherPlace other hotherWrite)
  exact hwrite.unique hotherWrite

private theorem LastWrite.of_writes (h : step.Writes (settingsInForce steps) d enabled) :
    LastWrite (steps ++ [step]) d enabled := by
  refine ⟨steps.length, writeAt_concat_iff.mpr (.inl ⟨rfl, h⟩), ?_⟩
  rintro other otherEnabled ⟨later, hkept, -⟩
  exact hkept.le_length

private theorem LastWrite.concat (h : LastWrite steps d enabled) (hresets : ¬ step.Resets)
    (hnone : ∀ other, ¬ step.Writes (settingsInForce steps) d other) :
    LastWrite (steps ++ [step]) d enabled := by
  obtain ⟨place, hwrite, hlast⟩ := h
  refine ⟨place, writeAt_concat_iff.mpr (.inr ⟨hresets, hwrite⟩), ?_⟩
  intro other otherEnabled hother
  rcases writeAt_concat_iff.mp hother with ⟨-, hwrites⟩ | ⟨-, hearlier⟩
  · exact absurd hwrites (hnone otherEnabled)
  · exact hlast other otherEnabled hearlier

private theorem not_writeAt_concat (hnone : ∀ other, ¬ step.Writes (settingsInForce steps) d other)
    (hsteps : step.Resets ∨ ∀ place enabled, ¬ WriteAt steps d place enabled) :
    ¬ WriteAt (steps ++ [step]) d place enabled := by
  intro h
  rcases writeAt_concat_iff.mp h with ⟨-, hwrites⟩ | ⟨hresets, hearlier⟩
  · exact hnone enabled hwrites
  · exact hsteps.elim hresets fun hnever => hnever place enabled hearlier

-- The induction takes off the last step, which writes the day, forgets it or leaves it alone.
private theorem lastWrite_or_not_writeAt (steps : List Step) (d : Date) :
    (∃ enabled, (run steps).state? d = some enabled ∧ LastWrite steps d enabled) ∨
      (run steps).state? d = none ∧ ∀ place enabled, ¬ WriteAt steps d place enabled := by
  induction steps using List.reverseRecOn with
  | nil => exact .inr ⟨state?_clear {} d, fun _ _ h => absurd h.lt_length (Nat.not_lt_zero _)⟩
  | append_singleton steps step ih =>
    have hsettings := settings_run steps
    rw [run_concat]
    by_cases hwrites : ∃ enabled, step.Writes (settingsInForce steps) d enabled
    · obtain ⟨enabled, hwrites⟩ := hwrites
      refine .inl ⟨enabled, Step.state?_perform_of_writes ?_, .of_writes hwrites⟩
      rwa [hsettings]
    have hnone := not_exists.mp hwrites
    have hnone' : ∀ enabled, ¬ step.Writes (run steps).settings d enabled := by rwa [hsettings]
    by_cases hresets : step.Resets
    · refine .inr ⟨Step.state?_perform_of_resets hresets hnone', fun _ _ => ?_⟩
      exact not_writeAt_concat hnone (.inl hresets)
    rw [Step.state?_perform_of_not_writes hresets hnone']
    rcases ih with ⟨enabled, hstate, hlast⟩ | ⟨hstate, hnever⟩
    · exact .inl ⟨enabled, hstate, hlast.concat hresets hnone⟩
    · exact .inr ⟨hstate, fun _ _ => not_writeAt_concat hnone (.inr hnever)⟩

end LastWrite

/-- The last write wins over any history. A day has the state that its last write gave it since the
days were forgotten, and no state if there is no such write. -/
theorem state?_run_iff (steps : List Step) (d : Date) :
    (∀ enabled, (run steps).state? d = some enabled ↔ LastWrite steps d enabled) ∧
      ((run steps).state? d = none ↔ ∀ place enabled, ¬ WriteAt steps d place enabled) ∧
      ((run steps).isEnabled d ↔ LastWrite steps d true) := by
  have hstates : ∀ enabled, (run steps).state? d = some enabled ↔ LastWrite steps d enabled := by
    intro enabled
    rcases lastWrite_or_not_writeAt steps d with ⟨now, hstate, hlast⟩ | ⟨hstate, hnever⟩
    · rw [hstate, Option.some.injEq]
      exact ⟨fun h => h ▸ hlast, fun h => h.unique hlast⟩
    · rw [hstate]
      refine ⟨fun h => (nomatch h), ?_⟩
      rintro ⟨place, hwrite, -⟩
      exact absurd hwrite (hnever place enabled)
  refine ⟨hstates, ?_, ?_⟩
  · rcases lastWrite_or_not_writeAt steps d with ⟨now, hstate, place, hwrite, -⟩ | ⟨hstate, hnever⟩
    · rw [hstate]
      exact ⟨fun h => (nomatch h), fun hnever => absurd hwrite (hnever place now)⟩
    · exact ⟨fun _ => hnever, fun _ => hstate⟩
  · rw [← hstates true, isEnabled]
    cases (run steps).state? d <;> simp

end DayRoster.Agenda
