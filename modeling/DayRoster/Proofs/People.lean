import DayRoster.Proofs.AgendaWrites
import Mathlib.Data.List.Induction
import Mathlib.Data.List.Nodup

/-!
The people in a roster, and the selection of one of them. A scan of the rules adds a name at the end
when a rule bears it for the first time, so each name stands once, and the names stand in the order
of the first rules that bear them. A selection depends on the rules for the person and for everyone,
in their order, and on the settings: the rules for other people, the days that an agenda held before
and the selections before leave no trace in it.
-/

set_option autoImplicit false

namespace DayRoster

namespace Agenda

private theorem clear_congr {agenda stale : Agenda} (h : agenda.settings = stale.settings) :
    agenda.clear = stale.clear :=
  Agenda.ext rfl rfl h

end Agenda

namespace Roster

/-- The names that are known after one more rule, whose name comes last if it is new. -/
def noteName (names : List String) (rule : Rule) : List String :=
  if rule.name ∈ names then names else names ++ [rule.name]

def firstPlace (rules : List Rule) (name : String) : Nat :=
  rules.findIdx fun rule => rule.name = name

/-- Each name in some rules once, in the order of the first rules that bear them. -/
structure ListsNames (rules : List Rule) (names : List String) : Prop where
  nodup : names.Nodup
  mem_iff : ∀ name, name ∈ names ↔ ∃ rule ∈ rules, rule.name = name
  pairwise : names.Pairwise fun name later => firstPlace rules name < firstPlace rules later

section Step

variable {rules : List Rule} {names : List String} {rule : Rule} {name : String}

theorem mem_noteName : name ∈ noteName names rule ↔ name ∈ names ∨ name = rule.name := by
  rw [noteName]
  split
  · next hknown =>
    rw [iff_self_or]
    rintro rfl
    exact hknown
  · rw [List.mem_append, List.mem_singleton]

theorem firstPlace_lt_length (h : ∃ rule ∈ rules, rule.name = name) :
    firstPlace rules name < rules.length :=
  List.findIdx_lt_length.mpr (by simpa using h)

theorem firstPlace_concat_of_mem (h : ∃ rule ∈ rules, rule.name = name) :
    firstPlace (rules ++ [rule]) name = firstPlace rules name := by
  rw [firstPlace, List.findIdx_append]
  exact if_pos (firstPlace_lt_length h)

theorem firstPlace_concat_of_new (h : ¬ ∃ earlier ∈ rules, earlier.name = rule.name) :
    firstPlace (rules ++ [rule]) rule.name = rules.length := by
  have hnone : firstPlace rules rule.name = rules.length :=
    List.findIdx_eq_length_of_false fun earlier hearlier =>
      decide_eq_false fun hname => h ⟨earlier, hearlier, hname⟩
  rw [firstPlace, List.findIdx_append]
  rw [firstPlace] at hnone
  simp [hnone, List.findIdx_cons]

/-- A name that is known keeps its place, and a new one is borne by the last rule first. -/
theorem ListsNames.noteName (h : ListsNames rules names) (rule : Rule) :
    ListsNames (rules ++ [rule]) (noteName names rule) := by
  have hmem : ∀ name, name ∈ Roster.noteName names rule ↔
      ∃ earlier ∈ rules ++ [rule], earlier.name = name := by
    intro name
    rw [mem_noteName, h.mem_iff]
    simp [or_and_right, exists_or, eq_comm]
  have hkept : names.Pairwise fun name later =>
      firstPlace (rules ++ [rule]) name < firstPlace (rules ++ [rule]) later := by
    refine h.pairwise.imp_of_mem fun {name later} hname hlater hlt => ?_
    rwa [firstPlace_concat_of_mem ((h.mem_iff name).mp hname),
      firstPlace_concat_of_mem ((h.mem_iff later).mp hlater)]
  refine ⟨?_, hmem, ?_⟩
  · rw [Roster.noteName]
    split
    · exact h.nodup
    · next hnew => exact List.nodup_append_comm.mp (List.nodup_cons.mpr ⟨hnew, h.nodup⟩)
  · rw [Roster.noteName]
    split
    · exact hkept
    · next hnew =>
      refine List.pairwise_append.mpr ⟨hkept, List.pairwise_singleton _ _, ?_⟩
      intro name hname later hlater
      obtain rfl := List.mem_singleton.mp hlater
      rw [firstPlace_concat_of_mem ((h.mem_iff name).mp hname),
        firstPlace_concat_of_new fun hbears => hnew ((h.mem_iff _).mpr hbears)]
      exact firstPlace_lt_length ((h.mem_iff name).mp hname)

end Step

theorem people_concat (rules : List Rule) (rule : Rule) :
    (⟨rules ++ [rule]⟩ : Roster).people = noteName (⟨rules⟩ : Roster).people rule := by
  rw [people, people, noteName, List.map_append, List.eraseDups_append, List.map_singleton,
    List.cons_removeAll, List.nil_removeAll]
  by_cases hknown : rule.name ∈ rules.map Rule.name
  · rw [if_pos (List.mem_eraseDups.mpr hknown), List.contains_iff_mem.mpr hknown,
      if_neg (by decide), List.eraseDups_nil, List.append_nil]
  · rw [if_neg (mt List.mem_eraseDups.mp hknown),
      Bool.eq_false_iff.mpr (mt List.contains_iff_mem.mp hknown), if_pos rfl]
    rfl

theorem people_eq_foldl (roster : Roster) : roster.people = roster.rules.foldl noteName [] := by
  obtain ⟨rules⟩ := roster
  induction rules using List.reverseRecOn with
  | nil => rfl
  | append_singleton rules rule ih => rw [people_concat, ih, List.foldl_concat]

theorem listsNames_people (roster : Roster) : ListsNames roster.rules roster.people := by
  obtain ⟨rules⟩ := roster
  induction rules using List.reverseRecOn with
  | nil => exact ⟨List.nodup_nil, by simp [people], List.Pairwise.nil⟩
  | append_singleton rules rule ih =>
    rw [people_concat]
    exact ih.noteName rule

theorem people_append (first second : List Rule) :
    (⟨first ++ second⟩ : Roster).people =
      (⟨first⟩ : Roster).people ++
        (⟨second⟩ : Roster).people.filter (· ∉ (⟨first⟩ : Roster).people) := by
  induction second using List.reverseRecOn with
  | nil => simp [people]
  | append_singleton second rule ih =>
    rw [← List.append_assoc, people_concat, people_concat, ih]
    simp only [noteName, List.mem_append, List.mem_filter]
    by_cases hfirst : rule.name ∈ (⟨first⟩ : Roster).people <;>
      by_cases hsecond : rule.name ∈ (⟨second⟩ : Roster).people <;>
      simp [hfirst, hsecond]

/-- The people in a roster are the names that its rules bear, each of them once and in the order of
the first rules that bear them. A second roster behind it adds its people that are new, in their
order. -/
theorem people_by_first_rule (roster later : Roster) :
    roster.people = roster.rules.foldl noteName [] ∧
      roster.people.Nodup ∧
      (∀ name, name ∈ roster.people ↔ ∃ rule ∈ roster.rules, rule.name = name) ∧
      (roster.people.Pairwise fun name other =>
        (roster.rules.findIdx fun rule => rule.name = name) <
          roster.rules.findIdx fun rule => rule.name = other) ∧
      (⟨roster.rules ++ later.rules⟩ : Roster).people =
        roster.people ++ later.people.filter (· ∉ roster.people) := by
  have hlists := roster.listsNames_people
  exact ⟨roster.people_eq_foldl, hlists.nodup, hlists.mem_iff, hlists.pairwise,
    people_append roster.rules later.rules⟩

section Selection

variable {roster other : Roster} {person : String} {agenda stale : Agenda}

@[simp] theorem settings_select (roster : Roster) (person : String) (agenda : Agenda) :
    (roster.select person agenda).settings = agenda.settings := by
  rw [select, Agenda.settings_foldl Agenda.settings_apply, Agenda.settings_clear]

private theorem select_congr (hrules : roster.rulesOf person = other.rulesOf person)
    (hsettings : agenda.settings = stale.settings) :
    roster.select person agenda = other.select person stale := by
  rw [select, select, hrules, Agenda.clear_congr hsettings]

private theorem rulesOf_rulesOf (roster : Roster) (person : String) :
    (⟨roster.rulesOf person⟩ : Roster).rulesOf person = roster.rulesOf person :=
  List.filter_eq_self.mpr fun _ hrule => (List.mem_filter.mp hrule).2

private theorem rulesOf_of_forall_ne (h : ∀ rule ∈ roster.rules, rule.name ≠ person) :
    roster.rulesOf person = roster.rulesOf everyone := by
  refine List.filter_congr fun rule hrule => ?_
  have hname : rule.name = everyone ∨ rule.name = person ↔
      rule.name = everyone ∨ rule.name = everyone := by
    rw [or_self, or_iff_left (h rule hrule)]
  exact decide_eq_decide.mpr hname

/-- Selecting a person from two rosters that agree on the rules for the person and for everyone,
with agendas that agree on the settings, gives the same agenda. -/
theorem select_isolated (roster other : Roster) (person : String) (agenda stale : Agenda)
    (hrules : roster.rules.filter (fun rule => rule.name = everyone ∨ rule.name = person) =
      other.rules.filter fun rule => rule.name = everyone ∨ rule.name = person)
    (hsettings : agenda.settings = stale.settings) :
    roster.select person agenda = other.select person stale ∧
      (roster.select person agenda).enabledCount = (other.select person stale).enabledCount ∧
      (roster.select person agenda).settings = agenda.settings ∧
      (other.select person stale).settings = stale.settings ∧
      (⟨roster.rulesOf person⟩ : Roster).select person agenda = roster.select person agenda ∧
      (∀ earlier : List (Roster × String), roster.select person
        (earlier.foldl (fun agenda selection => selection.1.select selection.2 agenda) agenda) =
          roster.select person agenda) ∧
      ((∀ rule ∈ roster.rules, rule.name ≠ person) →
        roster.select person agenda = roster.select everyone agenda) := by
  have hselect : roster.select person agenda = other.select person stale :=
    select_congr hrules hsettings
  refine ⟨hselect, congrArg _ hselect, settings_select _ _ _, settings_select _ _ _,
    select_congr (roster.rulesOf_rulesOf person) rfl, fun earlier => ?_, fun hnone => ?_⟩
  · have hearlier := Agenda.settings_foldl
      (fun agenda (selection : Roster × String) => settings_select selection.1 selection.2 agenda)
      earlier agenda
    exact select_congr rfl hearlier
  · rw [select, select, rulesOf_of_forall_ne hnone]

theorem select_ann_without_bob :
    let day : Date := ⟨Year.start 2020, by decide⟩
    let shared : Rule := ⟨everyone, .inclusion, day, day, .empty⟩
    let bobs : Rule := ⟨"Bob", .exclusion, day, day, .empty⟩
    let stale : Agenda := ({} : Agenda).write Date.lastSupported true none
    Roster.select ⟨[shared, bobs]⟩ "Ann" {} = Roster.select ⟨[shared]⟩ "Ann" stale ∧
      Roster.select ⟨[shared, bobs]⟩ "Ann" {} = Roster.select ⟨[shared, bobs]⟩ everyone {} := by
  intro day shared bobs stale
  have hisolated := select_isolated ⟨[shared, bobs]⟩ ⟨[shared]⟩ "Ann" {} stale
    (by decide +kernel) rfl
  obtain ⟨hselect, -, -, -, -, -, hunknown⟩ := hisolated
  exact ⟨hselect, hunknown (by decide +kernel)⟩

end Selection

end Roster

end DayRoster
