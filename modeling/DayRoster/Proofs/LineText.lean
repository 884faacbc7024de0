import DayRoster.Text
import Mathlib.Data.List.DropRight

/-!
What trimming, splitting into lines and splitting into tokens leave. A trimmed text has no blank at
either end; the lines of a text are trimmed, not empty and without line ends, and rows of that kind,
joined by line feeds, are read back as they are. Tokens behave alike for spaces and tabs.
-/

set_option autoImplicit false

namespace DayRoster.Text

private theorem of_mem_splitOnP {p : Char → Bool} {text piece : List Char}
    (h : piece ∈ text.splitOnP p) : ∀ c ∈ piece, c ∈ text ∧ p c = false := by
  induction text generalizing piece with
  | nil => simp_all
  | cons d rest ih =>
    rw [List.splitOnP_cons_eq_if_modifyHead] at h
    have hrest : ∀ {other : List Char}, other ∈ rest.splitOnP p →
        ∀ c ∈ other, c ∈ d :: rest ∧ p c = false := by
      intro other hother c hc
      obtain ⟨hmem, hp⟩ := ih hother c hc
      exact ⟨List.mem_cons_of_mem d hmem, hp⟩
    split at h
    · rcases List.mem_cons.mp h with rfl | h
      · simp
      · exact hrest h
    · next hd =>
      obtain ⟨first, others, hsplit⟩ := List.exists_cons_of_ne_nil (List.splitOnP_ne_nil p rest)
      rw [hsplit, List.modifyHead_cons] at h
      rcases List.mem_cons.mp h with rfl | h
      · intro c hc
        rcases List.mem_cons.mp hc with rfl | hc
        · exact ⟨List.mem_cons_self, Bool.eq_false_iff.mpr hd⟩
        · exact hrest (hsplit ▸ List.mem_cons_self) c hc
      · exact hrest (hsplit ▸ List.mem_cons_of_mem first h)

theorem mem_intercalate {separator : List Char} {rows : List (List Char)} {c : Char}
    (h : c ∈ separator.intercalate rows) : c ∈ separator ∨ ∃ row ∈ rows, c ∈ row := by
  induction rows with
  | nil => simp at h
  | cons row rest ih =>
    by_cases hnil : rest = []
    · subst hnil
      rw [List.intercalate_singleton] at h
      exact .inr ⟨row, List.mem_cons_self, h⟩
    · rw [List.intercalate_cons_of_ne_nil hnil, List.mem_append, List.mem_append] at h
      rcases h with (hc | hc) | hc
      · exact .inr ⟨row, List.mem_cons_self, hc⟩
      · exact .inl hc
      · rcases ih hc with hc | ⟨other, hother, hc⟩
        · exact .inl hc
        · exact .inr ⟨other, List.mem_cons_of_mem row hother, hc⟩

private theorem trimEnd_eq_rdropWhile (text : List Char) :
    trimEnd text = text.rdropWhile isBlank := rfl

theorem trimEnd_eq_self {text : List Char} (hlast : ∀ c ∈ text.getLast?, isBlank c = false) :
    trimEnd text = text := by
  rw [trimEnd_eq_rdropWhile, List.rdropWhile_eq_self_iff]
  intro hne
  simp [hlast _ (List.getLast?_eq_some_getLast hne)]

theorem trimEnd_append {text rest : List Char} (h : ∃ c ∈ rest, isBlank c = false) :
    trimEnd (text ++ rest) = text ++ trimEnd rest := by
  obtain ⟨c, hc, hblank⟩ := h
  have hne : (rest.reverse.dropWhile isBlank).isEmpty = false := by
    rw [List.isEmpty_eq_false_iff, ne_eq, List.dropWhile_eq_nil_iff]
    intro hall
    exact absurd (hall c (List.mem_reverse.mpr hc)) (by simp [hblank])
  rw [trimEnd, trimEnd, List.reverse_append, List.dropWhile_append, hne, if_neg Bool.false_ne_true,
    List.reverse_append, List.reverse_reverse]

theorem trim_eq_self {text : List Char} (hfirst : ∀ c ∈ text.head?, isBlank c = false)
    (hlast : ∀ c ∈ text.getLast?, isBlank c = false) : trim text = text := by
  have hdrop : text.dropWhile isBlank = text := by
    cases text with
    | nil => rfl
    | cons c rest => exact List.dropWhile_cons_of_neg (by simp [hfirst c rfl])
  rw [trim, hdrop, trimEnd_eq_self hlast]

theorem not_blank_of_mem_getLast?_trim {text : List Char} {c : Char}
    (hc : c ∈ (trim text).getLast?) : isBlank c = false := by
  obtain ⟨hne, rfl⟩ := List.mem_getLast?_eq_getLast hc
  exact Bool.eq_false_iff.mpr (List.rdropWhile_last_not isBlank _ hne)

theorem not_blank_of_mem_head?_trim {text : List Char} {c : Char}
    (hc : c ∈ (trim text).head?) : isBlank c = false := by
  obtain ⟨rest, hrest⟩ := List.head?_eq_some_iff.mp hc
  have hprefix : trim text <+: text.dropWhile isBlank := List.rdropWhile_prefix isBlank _
  obtain ⟨ending, hdrop⟩ := hprefix
  have hhead := List.head?_dropWhile_not isBlank text
  rw [← hdrop, hrest] at hhead
  exact hhead

theorem mem_of_mem_trim {text : List Char} {c : Char} (hc : c ∈ trim text) : c ∈ text :=
  (List.dropWhile_suffix isBlank).subset ((List.rdropWhile_prefix isBlank _).subset hc)

theorem trim_trim (text : List Char) : trim (trim text) = trim text :=
  trim_eq_self (fun _ => not_blank_of_mem_head?_trim) (fun _ => not_blank_of_mem_getLast?_trim)

theorem mem_lines {text line : List Char} (h : line ∈ lines text) :
    line ≠ [] ∧ trim line = line ∧ ∀ c ∈ line, isLineEnd c = false := by
  obtain ⟨hmap, hne⟩ := List.mem_filter.mp h
  obtain ⟨piece, hpiece, rfl⟩ := List.mem_map.mp hmap
  refine ⟨by simpa using hne, trim_trim piece, fun c hc => ?_⟩
  exact (of_mem_splitOnP hpiece c (mem_of_mem_trim hc)).2

theorem lines_of_not_lineEnd {row : List Char} (hne : row ≠ []) (htrim : trim row = row)
    (h : ∀ c ∈ row, isLineEnd c = false) : lines row = [row] := by
  rw [lines, List.splitOnP_eq_singleton h]
  simp [htrim, hne]

theorem lines_intercalate {rows : List (List Char)}
    (h : ∀ row ∈ rows, row ≠ [] ∧ trim row = row ∧ ∀ c ∈ row, isLineEnd c = false) :
    lines (['\n'].intercalate rows) = rows := by
  induction rows with
  | nil => rfl
  | cons row rest ih =>
    obtain ⟨hne, htrim, hends⟩ := h row List.mem_cons_self
    have hrest := ih fun other hother => h other (List.mem_cons_of_mem row hother)
    by_cases hnil : rest = []
    · subst hnil
      rw [List.intercalate_singleton]
      exact lines_of_not_lineEnd hne htrim hends
    · rw [List.intercalate_cons_of_ne_nil hnil, List.append_assoc, List.singleton_append,
        lines_append_cons _ _ (by decide), hrest, lines_of_not_lineEnd hne htrim hends]
      rfl

theorem mem_tokens {line token : List Char} (h : token ∈ tokens line) :
    token ≠ [] ∧ ∀ c ∈ token, c ∈ line ∧ isGap c = false := by
  obtain ⟨hpiece, hne⟩ := List.mem_filter.mp h
  exact ⟨by simpa using hne, of_mem_splitOnP hpiece⟩

theorem tokens_append_cons (first second : List Char) {c : Char} (hc : isGap c) :
    tokens (first ++ c :: second) = tokens first ++ tokens second := by
  rw [tokens, List.splitOnP_append_cons first second hc, List.filter_append]
  rfl

theorem tokens_of_not_gap {word : List Char} (hne : word ≠ [])
    (h : ∀ c ∈ word, isGap c = false) : tokens word = [word] := by
  rw [tokens, List.splitOnP_eq_singleton h]
  simp [hne]

theorem tokens_intercalate {words : List (List Char)}
    (h : ∀ word ∈ words, word ≠ [] ∧ ∀ c ∈ word, isGap c = false) :
    tokens ([' '].intercalate words) = words := by
  induction words with
  | nil => rfl
  | cons word rest ih =>
    obtain ⟨hne, hgaps⟩ := h word List.mem_cons_self
    have hrest := ih fun other hother => h other (List.mem_cons_of_mem word hother)
    by_cases hnil : rest = []
    · subst hnil
      rw [List.intercalate_singleton]
      exact tokens_of_not_gap hne hgaps
    · rw [List.intercalate_cons_of_ne_nil hnil, List.append_assoc, List.singleton_append,
        tokens_append_cons _ _ (by decide), hrest, tokens_of_not_gap hne hgaps]
      rfl

theorem tokens_cons_of_not_gap {c : Char} (hc : isGap c = false) (rest : List Char) :
    ∃ word words, tokens (c :: rest) = (c :: word) :: words := by
  obtain ⟨first, others, hsplit⟩ :=
    List.exists_cons_of_ne_nil (List.splitOnP_ne_nil isGap rest)
  refine ⟨first, others.filter fun token => !token.isEmpty, ?_⟩
  rw [tokens, List.splitOnP_cons_eq_if_modifyHead, hsplit]
  simp [hc]

theorem not_gap_of_not_blank {c : Char} (h : isBlank c = false) : isGap c = false := by
  rw [isGap, decide_eq_false_iff_not]
  rintro (rfl | rfl) <;> exact absurd h (by decide)

theorem not_lineEnd_of_not_blank {c : Char} (h : isBlank c = false) : isLineEnd c = false := by
  rw [isLineEnd, decide_eq_false_iff_not]
  rintro (rfl | rfl) <;> exact absurd h (by decide)

theorem not_blank_of_isDigit {c : Char} (h : c.isDigit) : isBlank c = false := by
  simp only [Char.isDigit, Bool.and_eq_true, decide_eq_true_eq] at h
  obtain ⟨hlo, hhi⟩ := h
  simp only [isBlank, decide_eq_false_iff_not]
  rintro (⟨-, hle⟩ | rfl | rfl | rfl | rfl | ⟨hle, -⟩ | rfl | rfl | rfl | rfl | rfl)
  · exact absurd (UInt32.le_trans hlo hle) (by decide)
  · exact absurd hlo (by decide)
  -- all other blanks come after the digits
  rotate_left 3
  · exact absurd (UInt32.le_trans hle hhi) (by decide)
  all_goals exact absurd hhi (by decide)

end DayRoster.Text
