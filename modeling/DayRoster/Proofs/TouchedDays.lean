import DayRoster.Proofs.History

/-!
The days that an agenda was asked to write since they were last forgotten, over any history of steps
and selections. Filters do not matter to them, so the stored days are only some of them. The first
and the last touched day are their bounds.
-/

set_option autoImplicit false

namespace DayRoster.Agenda

/-- The days that a step asks to write, whether or not a filter lets it. -/
def Step.touches : Step → Set Date
  | clear | withSettings _ => ∅
  | write d _ _ => {d}
  | enableOnly start stop | writeRange start stop _ _ => {d | Date.Covers start stop d}
  | apply rule => {d | Date.Covers rule.start rule.stop d}

inductive Action where
  | single (step : Step)
  | select (roster : Roster) (person : String)

namespace Action

def perform (agenda : Agenda) : Action → Agenda
  | single step => step.perform agenda
  | select roster person => roster.select person agenda

def Resets : Action → Prop
  | single step => step.Resets
  | select _ _ => True

def touches : Action → Set Date
  | single step => step.touches
  | select roster person =>
    {d | ∃ rule ∈ roster.rules, (rule.name = Roster.everyone ∨ rule.name = person) ∧
      Date.Covers rule.start rule.stop d}

def run (actions : List Action) : Agenda := actions.foldl perform {}

/-- The days touched by the actions that no later action forgets. -/
def touchedSince (actions : List Action) : Set Date :=
  {d | ∃ place action, KeptAt Resets actions place action ∧ d ∈ action.touches}

end Action

section Tracks

variable {agenda : Agenda} {touched : Set Date}

theorem Tracks.mem_of_isEnabled (h : agenda.Tracks touched) {d : Date} (hd : agenda.isEnabled d) :
    d ∈ touched := by
  refine h.stored d fun hnone => ?_
  rw [isEnabled, hnone] at hd
  exact Bool.false_ne_true hd

private theorem Tracks.foldl_apply (h : agenda.Tracks touched) (rules : List Rule) :
    (rules.foldl Agenda.apply agenda).Tracks
      ({d | ∃ rule ∈ rules, Date.Covers rule.start rule.stop d} ∪ touched) := by
  induction rules generalizing agenda touched with
  | nil => simpa using h
  | cons rule rules ih =>
    have hset : {d | ∃ other ∈ rule :: rules, Date.Covers other.start other.stop d} ∪ touched =
        {d | ∃ other ∈ rules, Date.Covers other.start other.stop d} ∪
          ({d | Date.Covers rule.start rule.stop d} ∪ touched) := by
      ext d
      simp only [List.exists_mem_cons_iff, Set.mem_union, Set.mem_ofPred_eq]
      rw [or_left_comm, or_assoc]
    rw [List.foldl_cons, hset]
    exact ih (h.writeRange rule.effect.enables rule.filter? rule.start rule.stop)

theorem Tracks.select (agenda : Agenda) (roster : Roster) (person : String) :
    (roster.select person agenda).Tracks (Action.select roster person).touches := by
  have hset : (Action.select roster person).touches =
      {d | ∃ rule ∈ roster.rulesOf person, Date.Covers rule.start rule.stop d} ∪ ∅ := by
    ext d
    simp [Action.touches, Roster.rulesOf, and_assoc]
  rw [hset]
  exact agenda.tracks_clear.foldl_apply (roster.rulesOf person)

theorem Tracks.perform_step (h : agenda.Tracks touched) (step : Step) :
    (step.perform agenda).Tracks (step.touches ∪ {d ∈ touched | ¬ step.Resets}) := by
  cases step with
  | clear => simpa [Step.perform, Step.touches, Step.Resets] using agenda.tracks_clear
  | enableOnly start stop =>
    simpa [Step.perform, enableOnly, Step.touches, Step.Resets] using
      agenda.tracks_clear.writeRange true none start stop
  | write d enabled filter =>
    simpa [Step.perform, Step.touches, Step.Resets] using h.write enabled filter d
  | writeRange start stop enabled filter =>
    simpa [Step.perform, Step.touches, Step.Resets] using h.writeRange enabled filter start stop
  | apply rule =>
    simpa [Step.perform, apply, Step.touches, Step.Resets] using
      h.writeRange rule.effect.enables rule.filter? rule.start rule.stop
  | withSettings settings =>
    simpa [Step.perform, Step.touches, Step.Resets] using
      (⟨h.isExtent, h.stored⟩ : (agenda.withSettings settings).Tracks touched)

theorem Tracks.perform (h : agenda.Tracks touched) (action : Action) :
    (action.perform agenda).Tracks (action.touches ∪ {d ∈ touched | ¬ action.Resets}) := by
  cases action with
  | single step => exact h.perform_step step
  | select roster person =>
    have hset : {d ∈ touched | ¬ (Action.select roster person).Resets} = ∅ := by
      simp [Action.Resets]
    rw [hset, Set.union_empty]
    exact Tracks.select agenda roster person

end Tracks

namespace Action

private theorem touchedSince_concat (actions : List Action) (action : Action) :
    touchedSince (actions ++ [action]) =
      action.touches ∪ {d ∈ touchedSince actions | ¬ action.Resets} := by
  ext d
  constructor
  · rintro ⟨place, earlier, hkept, hd⟩
    rcases keptAt_concat_iff.mp hkept with ⟨-, rfl⟩ | ⟨hresets, hkept⟩
    · exact .inl hd
    · exact .inr ⟨⟨place, earlier, hkept, hd⟩, hresets⟩
  · rintro (hd | ⟨⟨place, earlier, hkept, hd⟩, hresets⟩)
    · exact ⟨actions.length, action, keptAt_concat_iff.mpr (.inl ⟨rfl, rfl⟩), hd⟩
    · exact ⟨place, earlier, keptAt_concat_iff.mpr (.inr ⟨hresets, hkept⟩), hd⟩

theorem tracks_run (actions : List Action) : (run actions).Tracks (touchedSince actions) := by
  induction actions using List.reverseRecOn with
  | nil =>
    have hempty : touchedSince [] = ∅ := by
      refine Set.eq_empty_of_forall_notMem ?_
      rintro d ⟨place, action, hkept, -⟩
      exact Nat.not_lt_zero place hkept.lt_length
    rw [hempty]
    exact tracks_clear {}
  | append_singleton actions action ih =>
    have hrun : run (actions ++ [action]) = action.perform (run actions) := by
      rw [run, List.foldl_append]
      rfl
    rw [hrun, touchedSince_concat]
    exact ih.perform action

/-- The first and the last touched day are the least and the greatest of the touched days, and all
stored days lie between them. The enabled days ascend, and their number is exact. -/
theorem touchedRange_run (actions : List Action) :
    ((run actions).firstTouched? = none ∧ (run actions).lastTouched? = none ↔
        touchedSince actions = ∅) ∧
      ((touchedSince actions).Nonempty → ∃ first last,
        (run actions).firstTouched? = some first ∧ (run actions).lastTouched? = some last ∧
          IsLeast (touchedSince actions) first ∧ IsGreatest (touchedSince actions) last) ∧
      (∀ d, (run actions).state? d ≠ none → ∃ first last,
        (run actions).firstTouched? = some first ∧ (run actions).lastTouched? = some last ∧
          first ≤ d ∧ d ≤ last) ∧
      (run actions).enabledDays.Pairwise (· < ·) ∧
      (run actions).enabledCount.toNat = (run actions).enabledDays.length := by
  obtain ⟨hextent, hstored⟩ := tracks_run actions
  refine ⟨?_, ?_, ?_, pairwise_enabledDays _, toNat_enabledCount _⟩
  · rw [firstTouched?, lastTouched?]
    cases hnow : (run actions).extent with
    | none =>
      rw [hnow] at hextent
      exact ⟨fun _ => hextent, fun _ => ⟨rfl, rfl⟩⟩
    | some extent =>
      rw [hnow] at hextent
      refine ⟨fun h => (nomatch h.1), fun h => ?_⟩
      exact absurd hextent.1.1 (h ▸ Set.notMem_empty extent.least)
  · rintro ⟨d, hd⟩
    obtain ⟨extent, hnow, hleast, hgreatest⟩ := hextent.of_mem hd
    exact ⟨extent.least, extent.greatest, congrArg _ hnow, congrArg _ hnow, hleast, hgreatest⟩
  · intro d hd
    have hmem := hstored d hd
    obtain ⟨extent, hnow, hleast, hgreatest⟩ := hextent.of_mem hmem
    exact ⟨extent.least, extent.greatest, congrArg _ hnow, congrArg _ hnow, hleast.2 hmem,
      hgreatest.2 hmem⟩

end Action

end DayRoster.Agenda
