import DayRoster.Proofs.RuleEffects

/-!
Rules that may be left out of a list, and rules that may change places. A rule leaves no trace
exactly if each day that it writes gets written again by a later rule or had the same state before,
and if the extent has its days without it. A rule that comes again later is such a rule, so a list
of rules that is applied twice does what it does when it is applied once. The extent takes in the
days of two rules in any order, so only the states of days can tell which of the two came first, and
only the state of a day that both write.
-/

set_option autoImplicit false

namespace DayRoster

theorem Effect.enables_inj {effect other : Effect} :
    effect.enables = other.enables ↔ effect = other := by
  cases effect <;> cases other <;> decide

namespace Agenda

section Deletion

variable {agenda : Agenda} {before after : List Rule} {rule : Rule}

/-- A rule makes no difference to the state of a day if a later rule writes the day as well, and else
exactly if the day has the state already that the rule would give it. -/
private theorem state?_delete_iff (agenda : Agenda) (before after : List Rule) (rule : Rule)
    (d : Date) :
    ((before ++ rule :: after).foldl Agenda.apply agenda).state? d =
        ((before ++ after).foldl Agenda.apply agenda).state? d ↔
      (rule.Writes agenda.settings d → (∀ later ∈ after, ¬ later.Writes agenda.settings d) →
        (before.foldl Agenda.apply agenda).state? d = some rule.effect.enables) := by
  have hsettings := settings_foldl_apply before agenda
  rw [List.foldl_append, List.foldl_append, List.foldl_cons]
  generalize before.foldl Agenda.apply agenda = prior at hsettings ⊢
  rw [← hsettings]
  by_cases hafter : ∃ later ∈ after, later.Writes prior.settings d
  · obtain ⟨later, hlater, hwrites⟩ := hafter
    have hsame : (after.foldl Agenda.apply (prior.apply rule)).state? d =
        (after.foldl Agenda.apply prior).state? d := by
      apply state?_foldl_apply_of_writes
      · exact settings_apply prior rule
      · rw [settings_apply]
        exact ⟨later, hlater, hwrites⟩
    constructor
    · intro _ _ hnone
      exact absurd hwrites (hnone later hlater)
    · intro _
      exact hsame
  · have hnone : ∀ later ∈ after, ¬ later.Writes prior.settings d :=
      fun later hlater hwrites => hafter ⟨later, hlater, hwrites⟩
    rw [state?_foldl_apply_of_not_writes (by rwa [settings_apply]),
      state?_foldl_apply_of_not_writes hnone]
    by_cases hwrites : rule.Writes prior.settings d
    · rw [state?_apply_of_writes prior hwrites]
      constructor
      · intro h _ _
        exact h.symm
      · intro h
        exact (h hwrites hnone).symm
    · rw [state?_apply_of_not_writes prior hwrites]
      constructor
      · intro _ h
        exact absurd h hwrites
      · intro _
        rfl

private theorem extent_delete_iff (agenda : Agenda) (before after : List Rule) (rule : Rule) :
    ((before ++ rule :: after).foldl Agenda.apply agenda).extent =
        ((before ++ after).foldl Agenda.apply agenda).extent ↔
      ∀ d, rule.Touches d → ((before ++ after).foldl Agenda.apply agenda).Spans d := by
  have hperm : (before ++ rule :: after).Perm ((before ++ after) ++ [rule]) :=
    List.perm_middle.trans (List.perm_append_singleton rule (before ++ after)).symm
  rw [extent_foldl_apply_perm hperm, List.foldl_append]
  exact extent_apply_eq_self_iff

theorem foldl_delete_of_mem (h : rule ∈ after) :
    (before ++ rule :: after).foldl Agenda.apply agenda =
      (before ++ after).foldl Agenda.apply agenda := by
  apply ext_state
  · intro d
    rw [state?_delete_iff]
    intro hwrites hnone
    exact absurd hwrites (hnone rule h)
  · rw [extent_delete_iff]
    intro d htouches
    exact spans_foldl_apply (List.mem_append_right before h) htouches agenda
  · rw [settings_foldl_apply, settings_foldl_apply]

theorem foldl_append_of_subset {earlier rules : List Rule} (h : earlier ⊆ rules) :
    (earlier ++ rules).foldl Agenda.apply agenda = rules.foldl Agenda.apply agenda := by
  induction earlier with
  | nil => rfl
  | cons rule earlier ih =>
    obtain ⟨hrule, hearlier⟩ := List.cons_subset.mp h
    have hdelete : ([] ++ rule :: (earlier ++ rules)).foldl Agenda.apply agenda =
        ([] ++ (earlier ++ rules)).foldl Agenda.apply agenda :=
      foldl_delete_of_mem (List.mem_append_right earlier hrule)
    exact hdelete.trans (ih hearlier)

/-- A rule may be deleted from a list exactly if every day that it writes and that no later rule
writes has its state already, and every day that it touches lies within the extent of the agenda
without it. Hence a list of rules that is applied twice in a row does what it does once. -/
theorem delete_rule_iff (agenda : Agenda) (before after : List Rule) (rule : Rule) :
    ((before ++ rule :: after).foldl Agenda.apply agenda =
        (before ++ after).foldl Agenda.apply agenda ↔
      (∀ d, rule.Writes agenda.settings d → (∀ later ∈ after, ¬ later.Writes agenda.settings d) →
        (before.foldl Agenda.apply agenda).state? d = some rule.effect.enables) ∧
      ∀ d, rule.Touches d → ((before ++ after).foldl Agenda.apply agenda).Spans d) ∧
    ∀ rules : List Rule,
      (rules ++ rules).foldl Agenda.apply agenda = rules.foldl Agenda.apply agenda := by
  refine ⟨⟨?_, ?_⟩, ?_⟩
  · intro h
    constructor
    · intro d
      rw [← state?_delete_iff, h]
    · rw [← extent_delete_iff, h]
  · rintro ⟨hstates, hspans⟩
    apply ext_state
    · intro d
      exact (state?_delete_iff agenda before after rule d).mpr (hstates d)
    · exact (extent_delete_iff agenda before after rule).mpr hspans
    · rw [settings_foldl_apply, settings_foldl_apply]
  · intro rules
    exact foldl_append_of_subset (List.Subset.refl rules)

end Deletion

section Order

variable {agenda : Agenda} {rule other : Rule} {d : Date}

private theorem state?_apply_apply_of_writes (h : other.Writes agenda.settings d) :
    ((agenda.apply rule).apply other).state? d = some other.effect.enables := by
  apply state?_apply_of_writes
  rwa [settings_apply]

private theorem state?_apply_apply_of_not_writes (h : ¬ other.Writes agenda.settings d) :
    ((agenda.apply rule).apply other).state? d = (agenda.apply rule).state? d := by
  apply state?_apply_of_not_writes
  rwa [settings_apply]

private theorem state?_swap_of_not_writes (h : ¬ other.Writes agenda.settings d) :
    ((agenda.apply rule).apply other).state? d = ((agenda.apply other).apply rule).state? d := by
  rw [state?_apply_apply_of_not_writes h]
  by_cases hrule : rule.Writes agenda.settings d
  · rw [state?_apply_apply_of_writes hrule, state?_apply_of_writes agenda hrule]
  · rw [state?_apply_apply_of_not_writes hrule, state?_apply_of_not_writes agenda hrule,
      state?_apply_of_not_writes agenda h]

private theorem state?_swap_iff :
    ((agenda.apply rule).apply other).state? d = ((agenda.apply other).apply rule).state? d ↔
      (rule.Writes agenda.settings d → other.Writes agenda.settings d →
        rule.effect = other.effect) := by
  by_cases hother : other.Writes agenda.settings d
  · by_cases hrule : rule.Writes agenda.settings d
    · rw [state?_apply_apply_of_writes hother, state?_apply_apply_of_writes hrule,
        Option.some.injEq, Effect.enables_inj]
      exact ⟨fun h _ _ => h.symm, fun h => (h hrule hother).symm⟩
    · exact ⟨fun _ h => absurd h hrule, fun _ => (state?_swap_of_not_writes hrule).symm⟩
  · exact ⟨fun _ _ h => absurd h hother, fun _ => state?_swap_of_not_writes hother⟩

private theorem extent_swap (agenda : Agenda) (rule other : Rule) :
    ((agenda.apply rule).apply other).extent = ((agenda.apply other).apply rule).extent :=
  extent_foldl_apply_perm (List.Perm.swap other rule []) agenda

/-- Two rules may be swapped exactly if they have the same effect or no day is written by both. -/
theorem swap_rules_iff (agenda : Agenda) (rule other : Rule) :
    (agenda.apply rule).apply other = (agenda.apply other).apply rule ↔
      rule.effect = other.effect ∨
        ¬ ∃ d, rule.Writes agenda.settings d ∧ other.Writes agenda.settings d := by
  constructor
  · intro h
    rw [or_iff_not_imp_right, not_not]
    rintro ⟨d, hrule, hother⟩
    exact state?_swap_iff.mp (congrArg (state? · d) h) hrule hother
  · intro h
    apply ext_state
    · intro d
      rw [state?_swap_iff]
      intro hrule hother
      exact h.resolve_right (not_not_intro ⟨d, hrule, hother⟩)
    · exact extent_swap agenda rule other
    · simp only [settings_apply]

end Order

end Agenda

end DayRoster
