import DayRoster.Proofs.RejectedText

/-!
Reports of errors can be read back. A refused line and the description of its fault have no line
feed in them, so the lines of a report are the refused lines and the descriptions in turn, and a
report belongs to one list of refused lines only.
-/

set_option autoImplicit false

namespace DayRoster

/-- The lines of a text that line feeds separate, as they are. -/
def Text.rawLines (text : String) : List String := (text.toList.splitOn '\n').map String.ofList

section Pairs

variable {α β : Type}

private theorem intercalate_map_pair (separator : β) (f g : α → List β) (xs : List α) :
    [separator].intercalate (xs.map fun x => f x ++ separator :: g x) =
      [separator].intercalate (xs.flatMap fun x => [f x, g x]) := by
  induction xs with
  | nil => rfl
  | cons x xs ih =>
    cases xs with
    | nil => simp
    | cons y xs =>
      rw [List.map_cons, List.intercalate_cons_of_ne_nil (by simp), ih, List.flatMap_cons]
      simp [List.intercalate_cons_of_ne_nil]

private theorem length_flatMap_pair (f g : α → β) (xs : List α) :
    (xs.flatMap fun x => [f x, g x]).length = 2 * xs.length := by
  rw [List.length_flatMap]
  simp [Nat.mul_comm]

private theorem getElem?_flatMap_pair (f g : α → β) (xs : List α) (i : Nat) :
    (xs.flatMap fun x => [f x, g x])[2 * i]? = xs[i]?.map f ∧
      (xs.flatMap fun x => [f x, g x])[2 * i + 1]? = xs[i]?.map g := by
  induction xs generalizing i with
  | nil => simp
  | cons x xs ih =>
    cases i with
    | zero => simp
    | succ i => simpa [Nat.mul_succ] using ih i

end Pairs

private theorem lineFeed_notMem_append {first second : String} (h : '\n' ∉ first.toList)
    (h' : '\n' ∉ second.toList) : '\n' ∉ (first ++ second).toList := by
  rw [String.toList_append, List.mem_append, not_or]
  exact ⟨h, h'⟩

namespace LineFault

variable {fault : LineFault} {tokens : List String}

theorem PointsInto.mem (h : fault.PointsInto tokens) {found : String}
    (hfound : found ∈ fault.found?) : found ∈ tokens := by
  cases fault with
  | tooFewTokens | tooManyTokens => exact nomatch hfound
  | unknownEffect token | invalidStart token | invalidStop token =>
    obtain rfl := Option.some.inj hfound
    exact List.mem_of_getElem? h

theorem lineFeed_notMem_message (h : ∀ found ∈ fault.found?, '\n' ∉ found.toList) :
    '\n' ∉ fault.message.toList := by
  cases fault with
  | tooFewTokens | tooManyTokens => decide
  | unknownEffect found =>
    exact lineFeed_notMem_append (lineFeed_notMem_append (by decide +kernel) (h found rfl))
      (by decide)
  | invalidStart found | invalidStop found =>
    exact lineFeed_notMem_append (by decide) (h found rfl)

end LineFault

namespace LineError

variable {errors others : List LineError}

theorem rawLines_report (hne : errors ≠ [])
    (h : ∀ e ∈ errors, '\n' ∉ e.line.toList ∧ '\n' ∉ e.message.toList) :
    Text.rawLines (report errors) = errors.flatMap fun e => [e.line, "  " ++ e.message] := by
  have hreport : (report errors).toList = ['\n'].intercalate
      (errors.flatMap fun e => [e.line.toList, ("  " ++ e.message).toList]) := by
    rw [report, String.toList_intercalate, List.map_map, ← intercalate_map_pair]
    simp [Function.comp_def]
  have hlines : ∀ line ∈ errors.flatMap (fun e => [e.line.toList, ("  " ++ e.message).toList]),
      '\n' ∉ line := by
    intro line hline
    obtain ⟨e, he, hpair⟩ := List.mem_flatMap.mp hline
    obtain ⟨hnone, hnone'⟩ := h e he
    rcases List.mem_pair.mp hpair with rfl | rfl
    · exact hnone
    · exact lineFeed_notMem_append (by decide) hnone'
  have hpairs : errors.flatMap (fun e => [e.line.toList, ("  " ++ e.message).toList]) ≠ [] := by
    obtain ⟨e, he⟩ := List.exists_mem_of_ne_nil errors hne
    exact fun hnil => List.cons_ne_nil _ _ (List.flatMap_eq_nil_iff.mp hnil e he)
  rw [Text.rawLines, hreport, List.splitOn_intercalate '\n' hlines hpairs, List.map_flatMap]
  simp only [List.map_cons, List.map_nil, String.ofList_toList]

end LineError

namespace Roster

variable {text other : String} {errors others : List LineError}

def refusedRows (text : String) : List String :=
  (Text.rows text).filter fun row => !(Rule.parse row).isOk

theorem lineFeed_notMem_of_mem_errors (h : Roster.parse text = .error errors) {e : LineError}
    (he : e ∈ errors) : '\n' ∉ e.line.toList ∧ '\n' ∉ e.message.toList := by
  obtain ⟨hrow, hparse⟩ := of_mem_errors h he
  obtain ⟨-, htrim, hends⟩ := Text.mem_rows hrow
  obtain ⟨-, hblames⟩ := Rule.of_readLine_eq_error hparse
  rw [Rule.tokensOf, htrim] at hblames
  have hline : '\n' ∉ e.line.toList := fun hmem => absurd (hends _ hmem) (by decide)
  refine ⟨hline, LineFault.lineFeed_notMem_message fun found hfound hmem => ?_⟩
  obtain ⟨token, htoken, rfl⟩ := List.mem_map.mp (hblames.pointsInto.mem hfound)
  rw [String.toList_ofList] at hmem
  exact hline ((Text.mem_tokens htoken).2 _ hmem).1

theorem rawLines_report (h : Roster.parse text = .error errors) :
    Text.rawLines (LineError.report errors) =
      errors.flatMap fun e => [e.line, "  " ++ e.message] :=
  LineError.rawLines_report (parse_eq_error_iff.mp h).1
    fun _ he => lineFeed_notMem_of_mem_errors h he

theorem map_error_errors (h : Roster.parse text = .error errors) :
    errors.map Except.error = (refusedRows text).map Rule.parse := by
  rw [refusedRows, ← map_line_errors h, List.map_map]
  exact List.map_congr_left fun e he => (of_mem_errors h he).2.symm

theorem report_eq_iff (h : Roster.parse text = .error errors)
    (hother : Roster.parse other = .error others) :
    LineError.report errors = LineError.report others ↔ refusedRows text = refusedRows other := by
  constructor
  · intro hreport
    have hlines := congrArg Text.rawLines hreport
    rw [rawLines_report h, rawLines_report hother] at hlines
    rw [refusedRows, refusedRows, ← map_line_errors h, ← map_line_errors hother]
    refine List.ext_getElem? fun i => ?_
    have hpair := congrArg (fun lines : List String => lines[2 * i]?) hlines
    simpa only [(getElem?_flatMap_pair _ _ _ i).1, List.getElem?_map] using hpair
  · intro hrows
    have herrors := map_error_errors h
    rw [hrows, ← map_error_errors hother] at herrors
    rw [List.map_injective_iff.mpr (fun _ _ => Except.error.inj) herrors]

/-- The errors of a text are those of its refused lines, in order. The report of them has two lines
for each, which are the refused line without the blanks at its ends, and the description of its
fault behind two spaces. Two texts have the same report exactly if they have the same refused
lines. -/
theorem report_read_back (h : Roster.parse text = .error errors)
    (hother : Roster.parse other = .error others) :
    let lines := Text.rawLines (LineError.report errors)
    errors.map Except.error = (refusedRows text).map Rule.parse ∧
      lines.length = 2 * errors.length ∧
      (∀ i e, errors[i]? = some e →
        (refusedRows text)[i]? = some e.line ∧
          lines[2 * i]? = some e.line ∧ lines[2 * i + 1]? = some ("  " ++ e.message)) ∧
      (LineError.report errors = LineError.report others ↔
        refusedRows text = refusedRows other) := by
  intro lines
  have hlines : lines = errors.flatMap fun e => [e.line, "  " ++ e.message] := rawLines_report h
  have hrows : refusedRows text = errors.map LineError.line := (map_line_errors h).symm
  refine ⟨map_error_errors h, ?_, fun i e he => ?_, report_eq_iff h hother⟩
  · rw [hlines, length_flatMap_pair]
  · obtain ⟨heven, hodd⟩ :=
      getElem?_flatMap_pair LineError.line (fun e => "  " ++ e.message) errors i
    rw [hlines, heven, hodd, hrows, List.getElem?_map, he]
    exact ⟨rfl, rfl, rfl⟩

/-- A line separator that ends no line is quoted, and the report still has four lines. What the
texts have besides the two refused lines makes no difference to it. -/
theorem report_of_two_texts :
    let text := "Ann keep\u2028 2020 2021\r\nBob"
    let other := "\tAnn keep\u2028 2020 2021 \n\nCy include 2020 2021\rBob "
    let errors : List LineError :=
      [⟨"Ann keep\u2028 2020 2021", .unknownEffect "keep\u2028"⟩, ⟨"Bob", .tooFewTokens⟩]
    Roster.parse text = .error errors ∧ Roster.parse other = .error errors ∧
      refusedRows text = refusedRows other ∧
      (Text.rawLines (LineError.report errors)).length = 4 ∧
      (Text.rawLines (LineError.report errors))[2]? = some "Bob" := by
  intro text other errors
  have htext : Roster.parse text = .error errors := by decide +kernel
  have hother : Roster.parse other = .error errors := by decide +kernel
  obtain ⟨-, hlength, hlines, hsame⟩ := report_read_back htext hother
  exact ⟨htext, hother, hsame.mp rfl, hlength, (hlines 1 _ rfl).2.1⟩

end Roster

end DayRoster
