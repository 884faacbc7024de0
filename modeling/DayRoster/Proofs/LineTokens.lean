import DayRoster.Proofs.RejectedText

/-!
A line is read by its tokens only. The tokens are the runs of other characters than spaces and tabs
in the line without the blanks at its ends. Which rule they write, or which of the faults that apply
to them comes first, is all that matters; what stands between and around them does not.
-/

set_option autoImplicit false

namespace DayRoster

namespace Text

/-- A text is another one with blanks around it, and neither begins nor ends with a blank itself. -/
structure Trims (text trimmed : List Char) : Prop where
  exists_blanks : ∃ left right, text = left ++ trimmed ++ right ∧
    (∀ c ∈ left, isBlank c) ∧ ∀ c ∈ right, isBlank c
  first : ∀ c ∈ trimmed.head?, isBlank c = false
  last : ∀ c ∈ trimmed.getLast?, isBlank c = false

/-- The runs in a line, in order. A run has no gap in it and is not empty, and there is a gap or an
end of the line on both sides of it. -/
inductive Runs : List Char → List (List Char) → Prop
  | nil {gaps : List Char} (hgaps : ∀ c ∈ gaps, isGap c) : Runs gaps []
  | cons {gaps run rest : List Char} {runs : List (List Char)} (hgaps : ∀ c ∈ gaps, isGap c)
      (hne : run ≠ []) (hrun : ∀ c ∈ run, isGap c = false) (hend : ∀ c ∈ rest.head?, isGap c)
      (hrest : Runs rest runs) : Runs (gaps ++ run ++ rest) (run :: runs)

variable {text trimmed line : List Char} {runs : List (List Char)}

theorem trims_iff : Trims text trimmed ↔ trimmed = trim text := by
  constructor
  · rintro ⟨⟨left, right, rfl, hleft, hright⟩, hfirst, hlast⟩
    rw [trim, List.append_assoc, List.dropWhile_append_of_pos hleft]
    cases trimmed with
    | nil =>
      rw [List.nil_append, List.dropWhile_eq_nil_iff.mpr hright]
      rfl
    | cons c rest =>
      have hc : ¬ isBlank c := Bool.eq_false_iff.mp (hfirst c rfl)
      rw [List.cons_append, List.dropWhile_cons_of_neg hc, ← List.cons_append,
        trimEnd_append_of_blank hright, trimEnd_eq_self hlast]
  · rintro rfl
    refine ⟨⟨text.takeWhile isBlank, ((text.dropWhile isBlank).reverse.takeWhile isBlank).reverse,
      ?_, fun c => List.mem_takeWhile_imp, fun c hc => ?_⟩,
      fun _ => not_blank_of_mem_head?_trim, fun _ => not_blank_of_mem_getLast?_trim⟩
    · rw [trim, trimEnd, List.append_assoc, ← List.reverse_append,
        List.takeWhile_append_dropWhile, List.reverse_reverse, List.takeWhile_append_dropWhile]
    · exact List.mem_takeWhile_imp (List.mem_reverse.mp hc)

private theorem tokens_gaps_append {gaps : List Char} (h : ∀ c ∈ gaps, isGap c) (rest : List Char) :
    tokens (gaps ++ rest) = tokens rest := by
  induction gaps with
  | nil => rfl
  | cons c gaps ih =>
    have hrest := ih fun d hd => h d (List.mem_cons_of_mem c hd)
    exact (tokens_append_cons [] (gaps ++ rest) (h c List.mem_cons_self)).trans hrest

theorem Runs.tokens_eq (h : Runs line runs) : tokens line = runs := by
  induction h with
  | @nil gaps hgaps =>
    have hnil := tokens_gaps_append hgaps []
    rwa [List.append_nil] at hnil
  | @cons gaps run rest runs hgaps hne hrun hend hrest ih =>
    rw [List.append_assoc, tokens_gaps_append hgaps]
    cases rest with
    | nil =>
      rw [List.append_nil, tokens_of_not_gap hne hrun, ← ih]
      rfl
    | cons c rest =>
      have hc : isGap c := hend c rfl
      have hcons : tokens (c :: rest) = tokens rest := tokens_append_cons [] rest hc
      rw [tokens_append_cons run rest hc, tokens_of_not_gap hne hrun, ← ih, hcons]
      rfl

private theorem Runs.cons_gap (h : Runs line runs) {c : Char} (hc : isGap c) :
    Runs (c :: line) runs := by
  cases h with
  | nil hgaps => exact .nil (List.forall_mem_cons.mpr ⟨hc, hgaps⟩)
  | cons hgaps hne hrun hend hrest =>
    exact .cons (List.forall_mem_cons.mpr ⟨hc, hgaps⟩) hne hrun hend hrest

private theorem Runs.cons_not_gap (h : Runs line runs) {c : Char} (hc : isGap c = false) :
    ∃ runs, Runs (c :: line) runs := by
  have hnone : ∀ d ∈ ([] : List Char), isGap d := List.forall_mem_nil _
  by_cases hhead : ∀ d ∈ line.head?, isGap d
  · exact ⟨[c] :: runs,
      @Runs.cons [] [c] line runs hnone (List.cons_ne_nil _ _) (by simpa using hc) hhead h⟩
  · cases h with
    | nil hgaps => exact absurd (fun d hd => hgaps d (List.mem_of_mem_head? hd)) hhead
    | @cons gaps run rest runs hgaps hne hrun hend hrest =>
      cases gaps with
      | nil =>
        exact ⟨(c :: run) :: runs, @Runs.cons [] (c :: run) rest runs hnone
          (List.cons_ne_nil _ _) (List.forall_mem_cons.mpr ⟨hc, hrun⟩) hend hrest⟩
      | cons g gaps => exact absurd (by simpa using hgaps g List.mem_cons_self) hhead

theorem exists_runs (line : List Char) : ∃ runs, Runs line runs := by
  induction line with
  | nil => exact ⟨[], .nil (by simp)⟩
  | cons c line ih =>
    obtain ⟨runs, hruns⟩ := ih
    cases hc : isGap c with
    | true => exact ⟨runs, hruns.cons_gap hc⟩
    | false => exact hruns.cons_not_gap hc

theorem runs_iff : Runs line runs ↔ runs = tokens line := by
  constructor
  · exact fun h => h.tokens_eq.symm
  · rintro rfl
    obtain ⟨runs, hruns⟩ := exists_runs line
    rwa [hruns.tokens_eq]

end Text

namespace LineFault

/-- A fault applies to some tokens, whatever other faults apply to them as well. -/
inductive Applies (tokens : List String) : LineFault → Prop
  | tooFewTokens (h : tokens.length < 4) : Applies tokens .tooFewTokens
  | tooManyTokens (h : 5 < tokens.length) : Applies tokens .tooManyTokens
  | unknownEffect {word : String} (hword : tokens[1]? = some word)
      (h : ∀ effect : Effect, word ≠ effect.keyword) : Applies tokens (.unknownEffect word)
  | invalidStart {first : String} {cause : DateError} (hfirst : tokens[2]? = some first)
      (h : Date.parse first = .error cause) : Applies tokens (.invalidStart first)
  | invalidStop {last : String} {cause : DateError} (hlast : tokens[3]? = some last)
      (h : Date.parse last = .error cause) : Applies tokens (.invalidStop last)

/-- The place of a fault in the order in which faults are reported. -/
def rank : LineFault → Nat
  | tooFewTokens => 0
  | tooManyTokens => 1
  | unknownEffect _ => 2
  | invalidStart _ => 3
  | invalidStop _ => 4

def IsFirst (tokens : List String) (fault : LineFault) : Prop :=
  fault.Applies tokens ∧ ∀ other : LineFault, other.Applies tokens → fault.rank ≤ other.rank

variable {tokens : List String} {fault other : LineFault}

theorem Applies.eq_of_rank_eq (h : fault.Applies tokens) (hother : other.Applies tokens)
    (hrank : fault.rank = other.rank) : fault = other := by
  cases h <;> cases hother <;> simp_all [rank]

theorem IsFirst.unique (h : IsFirst tokens fault) (hother : IsFirst tokens other) :
    fault = other :=
  h.1.eq_of_rank_eq hother.1 (Nat.le_antisymm (h.2 other hother.1) (hother.2 fault h.1))

section Order

variable {name word first last : String} {rest : List String} {effect : Effect} {start : Date}

private theorem Applies.two_le_rank (hrest : rest.length ≤ 1)
    (h : fault.Applies (name :: word :: first :: last :: rest)) : 2 ≤ fault.rank := by
  cases h with
  | tooFewTokens hfew =>
    simp only [List.length_cons] at hfew
    omega
  | tooManyTokens hmany =>
    simp only [List.length_cons] at hmany
    omega
  | unknownEffect | invalidStart | invalidStop => simp [rank]

private theorem Applies.three_le_rank (hrest : rest.length ≤ 1)
    (h : fault.Applies (name :: effect.keyword :: first :: last :: rest)) : 3 ≤ fault.rank := by
  have htwo := h.two_le_rank hrest
  cases h with
  | tooFewTokens | tooManyTokens => simp [rank] at htwo
  | unknownEffect hword hnone => exact absurd (Option.some.inj hword).symm (hnone effect)
  | invalidStart | invalidStop => simp [rank]

private theorem Applies.four_le_rank (hrest : rest.length ≤ 1)
    (hfirst : Date.parse first = .ok start)
    (h : fault.Applies (name :: effect.keyword :: first :: last :: rest)) : 4 ≤ fault.rank := by
  have hthree := h.three_le_rank hrest
  cases h with
  | tooFewTokens | tooManyTokens | unknownEffect => simp [rank] at hthree
  | invalidStart hstart herror =>
    obtain rfl := Option.some.inj hstart
    exact nomatch hfirst.symm.trans herror
  | invalidStop => simp [rank]

private theorem not_applies_of_dates {stop : Date} (hrest : rest.length ≤ 1)
    (hfirst : Date.parse first = .ok start) (hlast : Date.parse last = .ok stop) :
    ¬ fault.Applies (name :: effect.keyword :: first :: last :: rest) := by
  intro h
  have hfour := h.four_le_rank hrest hfirst
  cases h with
  | tooFewTokens | tooManyTokens | unknownEffect | invalidStart => simp [rank] at hfour
  | invalidStop hstop herror =>
    obtain rfl := Option.some.inj hstop
    exact nomatch hlast.symm.trans herror

end Order

theorem Blames.isFirst (h : fault.Blames tokens) : IsFirst tokens fault := by
  cases h with
  | tooFewTokens hfew => exact ⟨.tooFewTokens hfew, fun _ _ => Nat.zero_le _⟩
  | tooManyTokens hmany =>
    refine ⟨.tooManyTokens hmany, fun other hother => ?_⟩
    cases hother with
    | tooFewTokens hfew => omega
    | tooManyTokens | unknownEffect | invalidStart | invalidStop => simp [rank]
  | unknownEffect hrest hword =>
    exact ⟨.unknownEffect rfl hword, fun _ hother => hother.two_le_rank hrest⟩
  | invalidStart hrest hfirst =>
    exact ⟨.invalidStart rfl hfirst, fun _ hother => hother.three_le_rank hrest⟩
  | invalidStop hrest hfirst hlast =>
    exact ⟨.invalidStop rfl hlast, fun _ hother => hother.four_le_rank hrest hfirst⟩

end LineFault

namespace Rule

variable {line other : String} {tokens : List String} {rule : Rule} {e : LineError}

/-- The tokens of a line are the runs in what is left of it without the blanks at its ends. -/
def Tokenizes (line : String) (tokens : List String) : Prop :=
  ∃ trimmed, Text.Trims line.toList trimmed ∧ Text.Runs trimmed (tokens.map String.toList)

theorem tokenizes_iff : Tokenizes line tokens ↔ tokens = tokensOf line.toList := by
  simp only [Tokenizes, Text.trims_iff, exists_eq_left, Text.runs_iff, tokensOf]
  constructor
  · intro h
    rw [← h]
    simp
  · rintro rfl
    simp

theorem Written.not_applies (h : Written rule tokens) (fault : LineFault) :
    ¬ fault.Applies tokens := by
  cases h with
  | unmasked hstart hstop => exact LineFault.not_applies_of_dates (Nat.zero_le 1) hstart hstop
  | masked hstart hstop => exact LineFault.not_applies_of_dates (Nat.le_refl 1) hstart hstop

theorem parse_eq_ok_iff_written : parse line = .ok rule ↔ Written rule (tokensOf line.toList) :=
  readLine_eq_ok_iff

theorem parse_eq_error_iff : parse line = .error e ↔
    Text.Trims line.toList e.line.toList ∧ LineFault.IsFirst (tokensOf line.toList) e.fault := by
  rw [Text.trims_iff]
  constructor
  · intro h
    obtain ⟨htrim, hblames⟩ := of_readLine_eq_error h
    exact ⟨htrim, hblames.isFirst⟩
  · rintro ⟨htrim, hfirst⟩
    cases hparse : parse line with
    | ok rule => exact absurd hfirst.1 ((parse_eq_ok_iff_written.mp hparse).not_applies _)
    | error reported =>
      obtain ⟨hline, hblames⟩ := of_readLine_eq_error hparse
      have hsame : reported.line = e.line := String.toList_inj.mp (hline.trans htrim.symm)
      exact congrArg Except.error (LineError.ext hsame (hblames.isFirst.unique hfirst))

theorem exists_parse_eq_ok_iff_not_applies :
    (∃ rule, parse line = .ok rule) ↔
      ∀ fault : LineFault, ¬ fault.Applies (tokensOf line.toList) := by
  constructor
  · rintro ⟨rule, hrule⟩
    exact (parse_eq_ok_iff_written.mp hrule).not_applies
  · intro hnone
    cases hparse : parse line with
    | ok rule => exact ⟨rule, rfl⟩
    | error e => exact absurd (parse_eq_error_iff.mp hparse).2.1 (hnone e.fault)

theorem forall_not_applies_iff :
    (∀ fault : LineFault, ¬ fault.Applies tokens) ↔
      (tokens.length = 4 ∨ tokens.length = 5) ∧
      (tokens[1]? = some "include" ∨ tokens[1]? = some "exclude") ∧
      (∃ first start, tokens[2]? = some first ∧ Date.parse first = .ok start) ∧
      ∃ last stop, tokens[3]? = some last ∧ Date.parse last = .ok stop := by
  constructor
  · intro hnone
    have hfew : ¬ tokens.length < 4 := fun h => hnone _ (.tooFewTokens h)
    have hmany : ¬ 5 < tokens.length := fun h => hnone _ (.tooManyTokens h)
    have hword : tokens[1]? = some tokens[1] := List.getElem?_eq_getElem _
    have hfirst : tokens[2]? = some tokens[2] := List.getElem?_eq_getElem _
    have hlast : tokens[3]? = some tokens[3] := List.getElem?_eq_getElem _
    refine ⟨by omega, ?_, ?_, ?_⟩
    · have heffect : ∃ effect : Effect, tokens[1] = effect.keyword := by
        by_contra hunknown
        exact hnone _ (.unknownEffect hword (not_exists.mp hunknown))
      obtain ⟨effect, heffect⟩ := heffect
      rw [hword, heffect]
      cases effect with
      | inclusion => exact .inl rfl
      | exclusion => exact .inr rfl
    · cases hstart : Date.parse tokens[2] with
      | ok start => exact ⟨_, start, hfirst, hstart⟩
      | error cause => exact absurd (.invalidStart hfirst hstart) (hnone _)
    · cases hstop : Date.parse tokens[3] with
      | ok stop => exact ⟨_, stop, hlast, hstop⟩
      | error cause => exact absurd (.invalidStop hlast hstop) (hnone _)
  · rintro ⟨hlength, heffect, ⟨first, start, hfirst, hstart⟩, last, stop, hlast, hstop⟩ fault h
    cases h with
    | tooFewTokens | tooManyTokens => omega
    | unknownEffect hword hunknown =>
      rw [hword, Option.some.injEq, Option.some.injEq] at heffect
      rcases heffect with rfl | rfl
      · exact hunknown .inclusion rfl
      · exact hunknown .exclusion rfl
    | invalidStart hfirst' herror =>
      obtain rfl := Option.some.inj (hfirst.symm.trans hfirst')
      exact nomatch hstart.symm.trans herror
    | invalidStop hlast' herror =>
      obtain rfl := Option.some.inj (hlast.symm.trans hlast')
      exact nomatch hstop.symm.trans herror

theorem mapError_parse_congr (h : tokensOf other.toList = tokensOf line.toList) :
    (parse other).mapError LineError.fault = (parse line).mapError LineError.fault := by
  cases hline : parse line with
  | ok rule =>
    have hother : parse other = .ok rule := by
      rw [parse_eq_ok_iff_written, h]
      exact parse_eq_ok_iff_written.mp hline
    rw [hother]
  | error e =>
    have hother : parse other = .error ⟨String.ofList (Text.trim other.toList), e.fault⟩ := by
      rw [parse_eq_error_iff, h, Text.trims_iff]
      exact ⟨String.toList_ofList, (parse_eq_error_iff.mp hline).2⟩
    rw [hother]
    rfl

/-- A line has one list of tokens, which are the runs between spaces and tabs in what is left of it
without the blanks at its ends. It is the rule that they write, and they write one if there are four
or five of them, the second one is the word for an effect, and the third and the fourth one are
dates. Any other line is refused with the first fault that applies to its tokens. Hence lines with
the same tokens are the same rule or have the same fault. -/
theorem parse_by_tokens (line : String) :
    let tokens := tokensOf line.toList
    (∀ words, Tokenizes line words ↔ words = tokens) ∧
    (∀ rule, parse line = .ok rule ↔ Written rule tokens) ∧
    ((∃ rule, parse line = .ok rule) ↔
      (tokens.length = 4 ∨ tokens.length = 5) ∧
      (tokens[1]? = some "include" ∨ tokens[1]? = some "exclude") ∧
      (∃ first start, tokens[2]? = some first ∧ Date.parse first = .ok start) ∧
      ∃ last stop, tokens[3]? = some last ∧ Date.parse last = .ok stop) ∧
    (∀ e, parse line = .error e ↔
      Text.Trims line.toList e.line.toList ∧ LineFault.IsFirst tokens e.fault) ∧
    ∀ other words, Tokenizes line words → Tokenizes other words →
      (parse other).mapError LineError.fault = (parse line).mapError LineError.fault := by
  intro tokens
  refine ⟨fun _ => tokenizes_iff, fun _ => parse_eq_ok_iff_written, ?_,
    fun _ => parse_eq_error_iff, fun other words hline hother => ?_⟩
  · exact exists_parse_eq_ok_iff_not_applies.trans forall_not_applies_iff
  · exact mapError_parse_congr ((tokenizes_iff.mp hother).symm.trans (tokenizes_iff.mp hline))

/-- Two ways to put blanks around the same tokens, which have two faults. -/
theorem parse_between_blanks :
    let line := "Ann keep tomorrow 2021"
    let other := "\u00a0Ann\tkeep \t tomorrow 2021\x0b"
    let words := ["Ann", "keep", "tomorrow", "2021"]
    Tokenizes line words ∧ Tokenizes other words ∧
      (parse other).mapError LineError.fault = .error (.unknownEffect "keep") := by
  intro line other words
  have hline : Tokenizes line words := tokenizes_iff.mpr (by decide +kernel)
  have hother : Tokenizes other words := tokenizes_iff.mpr (by decide +kernel)
  obtain ⟨-, -, -, -, hsame⟩ := parse_by_tokens line
  refine ⟨hline, hother, (hsame other words hline hother).trans ?_⟩
  decide +kernel

end Rule

end DayRoster
