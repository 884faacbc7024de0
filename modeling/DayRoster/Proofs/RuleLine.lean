import DayRoster.Proofs.DateText
import DayRoster.Rule

/-!
Lines that write a rule. `Rule.Written` says which tokens write which rule, and a line is read as a
rule exactly if its tokens write that rule.
-/

set_option autoImplicit false

namespace DayRoster.Rule

/-- The lists of tokens that write a rule: its name, the word for its effect, two dates, and
possibly a mask. -/
inductive Written (rule : Rule) : List String → Prop
  | unmasked {first last : String} (hstart : Date.parse first = .ok rule.start)
      (hstop : Date.parse last = .ok rule.stop) (hweekdays : rule.weekdays = WeekPattern.empty) :
      Written rule [rule.name, rule.effect.keyword, first, last]
  | masked {first last mask : String} (hstart : Date.parse first = .ok rule.start)
      (hstop : Date.parse last = .ok rule.stop)
      (hweekdays : rule.weekdays = WeekPattern.ofMask mask.toList) :
      Written rule [rule.name, rule.effect.keyword, first, last, mask]

theorem Written.exists_dates {rule : Rule} {tokens : List String} (h : Written rule tokens) :
    ∃ first last, Date.parse first = .ok rule.start ∧ Date.parse last = .ok rule.stop := by
  cases h with
  | unmasked hstart hstop _ => exact ⟨_, _, hstart, hstop⟩
  | masked hstart hstop _ => exact ⟨_, _, hstart, hstop⟩

theorem run_readDate (token : String) (fault : String → LineFault) (warned : Bool) :
    (readDate token fault).run.run warned =
      ((Date.parse token).mapError fun _ => fault token,
        warned || (Spelling.read? token).any Spelling.isOutdated) := by
  unfold readDate Date.parse
  cases Spelling.read? token with
  | none => simp; rfl
  | some spelling =>
    cases hdate : spelling.date? <;> cases houtdated : spelling.isOutdated <;>
      simp [hdate, houtdated] <;> rfl

theorem run_bind {α β : Type} (p : LineReader α) (f : α → LineReader β) (warned : Bool) :
    (p >>= f).run.run warned =
      match p.run.run warned with
      | (.ok a, warned') => (f a).run.run warned'
      | (.error fault, warned') => (.error fault, warned') := by
  change StateT.run (ExceptT.run p >>= ExceptT.bindCont f) warned = _
  rw [StateT.run_bind]
  cases hrun : p.run.run warned with
  | mk outcome warned' => cases outcome <;> rfl

/-- Four tokens or more are judged in the order: their number, the effect, the two dates. The second
date is looked at only if the first one is a date. -/
theorem run_readTokens_cons (name word first last : String) (rest : List String) (warned : Bool) :
    (readTokens (name :: word :: first :: last :: rest)).run.run warned =
      if 1 < rest.length then (.error .tooManyTokens, warned)
      else match Effect.ofKeyword? word with
        | none => (.error (.unknownEffect word), warned)
        | some effect =>
          let warned := warned || (Spelling.read? first).any Spelling.isOutdated
          match Date.parse first with
          | .error _ => (.error (.invalidStart first), warned)
          | .ok start =>
            let warned := warned || (Spelling.read? last).any Spelling.isOutdated
            match Date.parse last with
            | .error _ => (.error (.invalidStop last), warned)
            | .ok stop =>
              (.ok ⟨name, effect, start, stop, WeekPattern.ofMask (rest.headD "").toList⟩,
                warned) := by
  unfold readTokens
  by_cases hrest : 1 < rest.length
  · simp only [hrest, if_true]
    rfl
  · simp only [hrest, if_false]
    cases Effect.ofKeyword? word with
    | none => rfl
    | some effect =>
      dsimp only
      rw [run_bind, run_readDate]
      cases Date.parse first with
      | error e => rfl
      | ok start =>
        change (readDate last .invalidStop >>= _).run.run _ = _
        rw [run_bind, run_readDate]
        cases Date.parse last <;> rfl

theorem run_readTokens (name word first last : String) (rest : List String) (warned : Bool) :
    ((readTokens (name :: word :: first :: last :: rest)).run.run warned).1 =
      if 1 < rest.length then .error .tooManyTokens
      else match Effect.ofKeyword? word with
        | none => .error (.unknownEffect word)
        | some effect =>
          match Date.parse first with
          | .error _ => .error (.invalidStart first)
          | .ok start =>
            match Date.parse last with
            | .error _ => .error (.invalidStop last)
            | .ok stop =>
              .ok ⟨name, effect, start, stop, WeekPattern.ofMask (rest.headD "").toList⟩ := by
  rw [run_readTokens_cons]
  by_cases hrest : 1 < rest.length
  · rw [if_pos hrest, if_pos hrest]
  · rw [if_neg hrest, if_neg hrest]
    cases Effect.ofKeyword? word with
    | none => rfl
    | some effect =>
      cases Date.parse first with
      | error e => rfl
      | ok start => cases Date.parse last <;> rfl

theorem run_readTokens_eq_ok_iff {tokens : List String} {rule : Rule} (warned : Bool) :
    ((readTokens tokens).run.run warned).1 = .ok rule ↔ Written rule tokens := by
  constructor
  · intro h
    match tokens with
    | [] | [_] | [_, _] | [_, _, _] => contradiction
    | name :: word :: first :: last :: rest =>
      rw [run_readTokens] at h
      split at h
      · contradiction
      split at h
      · contradiction
      next hrest _ effect heffect =>
      split at h
      · contradiction
      next _ start hstart =>
      split at h
      · contradiction
      next _ stop hstop =>
      obtain rfl := Except.ok.inj h
      obtain rfl := Effect.ofKeyword?_eq_some_iff.mp heffect
      match rest with
      | [] => exact .unmasked hstart hstop rfl
      | [mask] => exact .masked hstart hstop rfl
      | _ :: _ :: _ => simp at hrest
  · have hkeyword := Effect.ofKeyword?_eq_some_iff.mpr (rfl : rule.effect.keyword = _)
    intro h
    cases h with
    | unmasked hstart hstop hweekdays =>
      rw [run_readTokens, if_neg (by decide), hkeyword, hstart, hstop]
      exact congrArg Except.ok (Rule.ext rfl rfl rfl rfl hweekdays.symm)
    | @masked first last mask hstart hstop hweekdays =>
      have hshort : ¬ 1 < [mask].length := Nat.lt_irrefl 1
      rw [run_readTokens, if_neg hshort, hkeyword, hstart, hstop]
      exact congrArg Except.ok (Rule.ext rfl rfl rfl rfl hweekdays.symm)

/-- The tokens of a line, of which the blanks at both ends are left out. -/
def tokensOf (text : List Char) : List String := (Text.tokens (Text.trim text)).map String.ofList

theorem readLine_eq_ok_iff {text : List Char} {rule : Rule} :
    (readLine text).outcome = .ok rule ↔ Written rule (tokensOf text) := by
  rw [← run_readTokens_eq_ok_iff false]
  change Except.mapError _ ((readTokens (tokensOf text)).run.run false).1 = .ok rule ↔ _
  cases ((readTokens (tokensOf text)).run.run false).1 with
  | error fault => exact ⟨fun h => (nomatch h), fun h => (nomatch h)⟩
  | ok read =>
    exact ⟨fun h => congrArg _ (Except.ok.inj h), fun h => congrArg _ (Except.ok.inj h)⟩

end DayRoster.Rule
