import DayRoster.Proofs.AgendaWrites
import Mathlib.Data.List.Basic

/-!
Another first day of the week. If the patterns of rules are rotated along with it, they let the same
days pass, and the rules do the same to the days and to the extent of an agenda.
-/

set_option autoImplicit false

namespace DayRoster

namespace WeekPattern

/-- The position of a day in the weeks that begin with `after`, from its position in the weeks that
begin with `before`. Positions beyond the week belong to no day and stay as they are. -/
def rotatePosition (before after : Weekday) (n : Nat) : Nat :=
  if n < 7 then (7 + n + before.number - after.number) % 7 else n

def rotate (before after : Weekday) (s : WeekPattern) : WeekPattern :=
  ofList (s.positions.map (rotatePosition before after))

theorem rotatePosition_position (before after day : Weekday) :
    rotatePosition before after (Weekday.position before day) = Weekday.position after day := by
  have hbefore := before.number_lt
  have hafter := after.number_lt
  have hday := day.number_lt
  rw [rotatePosition, if_pos (Weekday.position_lt before day), Weekday.position, Weekday.position]
  omega

theorem rotatePosition_injective (before after : Weekday) :
    Function.Injective (rotatePosition before after) := by
  intro m n h
  have hbefore := before.number_lt
  have hafter := after.number_lt
  unfold rotatePosition at h
  split at h <;> split at h <;> omega

theorem rotate_positions_eq_nil_iff {before after : Weekday} {s : WeekPattern} :
    (s.rotate before after).positions = [] ↔ s.positions = [] := by
  simp only [List.eq_nil_iff_forall_not_mem, rotate, mem_ofList, List.mem_map]
  constructor
  · intro h n hn
    exact h _ ⟨n, hn, rfl⟩
  · intro h n hn
    obtain ⟨k, hk, -⟩ := hn
    exact h k hk

theorem position_mem_rotate_iff {before after day : Weekday} {s : WeekPattern} :
    Weekday.position after day ∈ (s.rotate before after).positions ↔
      Weekday.position before day ∈ s.positions := by
  rw [← rotatePosition_position before after day, rotate, mem_ofList]
  exact List.mem_map_of_injective (rotatePosition_injective before after)

end WeekPattern

def Rule.rotate (before after : Weekday) (rule : Rule) : Rule :=
  { rule with weekdays := rule.weekdays.rotate before after }

variable {before after : Settings} {rule : Rule} {d : Date}

theorem Settings.passes_rotate_iff {s : WeekPattern} :
    after.Passes (some (s.rotate before.weekStart after.weekStart)) d ↔
      before.Passes (some s) d := by
  simp only [Passes, Option.mem_some_iff, forall_eq', position,
    WeekPattern.rotate_positions_eq_nil_iff, WeekPattern.position_mem_rotate_iff]

namespace Agenda

variable {agenda : Agenda} {filter rotated : Option WeekPattern}

private theorem write_withSettings (h : ∀ d, after.Passes rotated d ↔ before.Passes filter d)
    (hsettings : agenda.settings = before) (d : Date) (enabled : Bool) :
    (agenda.withSettings after).write d enabled rotated =
      (agenda.write d enabled filter).withSettings after := by
  have hadmits : (agenda.withSettings after).admits rotated d = agenda.admits filter d := by
    rw [Bool.eq_iff_iff, admits_iff, admits_iff, hsettings]
    exact h d
  rw [write, hadmits]
  rfl

theorem writeRange_withSettings (h : ∀ d, after.Passes rotated d ↔ before.Passes filter d)
    (hsettings : agenda.settings = before) (start stop : Date) (enabled : Bool) :
    (agenda.withSettings after).writeRange start stop enabled rotated =
      (agenda.writeRange start stop enabled filter).withSettings after := by
  rw [writeRange, writeRange]
  induction Date.range start stop generalizing agenda with
  | nil => rfl
  | cons d days ih =>
    rw [List.foldl_cons, List.foldl_cons, write_withSettings h hsettings, ih]
    exact hsettings

theorem apply_rotate (hsettings : agenda.settings = before) :
    (agenda.withSettings after).apply (rule.rotate before.weekStart after.weekStart) =
      (agenda.apply rule).withSettings after := by
  apply writeRange_withSettings _ hsettings
  intro d
  rw [Settings.passes_filter?_iff, Settings.passes_filter?_iff]
  exact Settings.passes_rotate_iff

theorem foldl_apply_rotate (hsettings : agenda.settings = before) (rules : List Rule) :
    (rules.map (Rule.rotate before.weekStart after.weekStart)).foldl Agenda.apply
        (agenda.withSettings after) =
      (rules.foldl Agenda.apply agenda).withSettings after := by
  induction rules generalizing agenda with
  | nil => rfl
  | cons rule rules ih =>
    rw [List.map_cons, List.foldl_cons, List.foldl_cons, apply_rotate hsettings, ih]
    rw [settings_apply, hsettings]

/-- Rules do the same to the days and to the extent of an agenda under another first day of the week
if the positions of their patterns are rotated from the one to the other. -/
theorem rotate_week_start (agenda : Agenda) (before after : Settings) (rules : List Rule) :
    let kept := rules.foldl Agenda.apply (agenda.withSettings before)
    let rotated := (rules.map (Rule.rotate before.weekStart after.weekStart)).foldl Agenda.apply
      (agenda.withSettings after)
    rotated.days = kept.days ∧ rotated.extent = kept.extent := by
  intro kept rotated
  have hsettings : (agenda.withSettings before).settings = before := rfl
  have hrotated : rotated = kept.withSettings after := foldl_apply_rotate hsettings rules
  rw [hrotated]
  exact ⟨rfl, rfl⟩

end Agenda

end DayRoster
