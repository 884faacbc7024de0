import DayRoster.Proofs.DateText
import DayRoster.Proofs.WrittenForms

/-!
What the readers of single items do in front of a text. They take the item off, or fail with it;
a part that may be left out is passed over where the text goes on with something else.
-/

set_option autoImplicit false

namespace DayRoster

open Decimal (Writes WritesShort)
open Text (MayBe)

theorem ne_of_isDigit {c d : Char} (hd : d.isDigit) (hc : c.isDigit = false) : d ≠ c := by
  rintro rfl
  exact absurd hd (Bool.eq_false_iff.mp hc)

theorem Decimal.Writes.head_ne {width n : Nat} {ds : List Char}
    (h : Writes (width + 1) n ds) {c : Char} (hc : c.isDigit = false) (rest : List Char) :
    ∀ d ∈ (ds ++ rest).head?, d ≠ c := by
  cases ds with
  | nil => exact nomatch h.length_eq
  | cons d ds =>
    have hd := h.isDigit d List.mem_cons_self
    simpa using ne_of_isDigit hd hc

theorem Decimal.Writes.exists_append {n : Nat} {text : List Char} (left right : Nat)
    (h : Writes (left + right) n text) :
    ∃ m ms k ks, Writes left m ms ∧ Writes right k ks ∧ text = ms ++ ks := by
  have hlength := h.length_eq
  refine ⟨_, text.take left, _, text.drop left, ⟨?_, ?_, rfl⟩, ⟨?_, ?_, rfl⟩,
    (List.take_append_drop left text).symm⟩
  · rw [List.length_take]
    omega
  · exact fun c hc => h.isDigit c (List.mem_of_mem_take hc)
  · rw [List.length_drop]
    omega
  · exact fun c hc => h.isDigit c (List.mem_of_mem_drop hc)

private theorem Decimal.ofDigitChars_lt {digits : List Char} (h : ∀ c ∈ digits, c.isDigit)
    (init : Nat) : Nat.ofDigitChars 10 digits init < (init + 1) * 10 ^ digits.length := by
  induction digits generalizing init with
  | nil => simp
  | cons c digits ih =>
    have hc : c.toNat - '0'.toNat < 10 := by
      have hdigit := Char.isDigit_iff_toNat.mp (h c List.mem_cons_self)
      have hbounds : '0'.toNat = 48 ∧ '9'.toNat = 57 := ⟨rfl, rfl⟩
      omega
    have hstep := ih (fun d hd => h d (List.mem_cons_of_mem c hd))
      (10 * init + (c.toNat - '0'.toNat))
    calc Nat.ofDigitChars 10 (c :: digits) init
        = Nat.ofDigitChars 10 digits (10 * init + (c.toNat - '0'.toNat)) := Nat.ofDigitChars_cons
      _ < (10 * init + (c.toNat - '0'.toNat) + 1) * 10 ^ digits.length := hstep
      _ ≤ ((init + 1) * 10) * 10 ^ digits.length := Nat.mul_le_mul_right _ (by omega)
      _ = (init + 1) * 10 ^ (c :: digits).length := by
        rw [List.length_cons, Nat.pow_succ, Nat.mul_assoc, Nat.mul_comm 10]

theorem Decimal.Writes.lt {width n : Nat} {text : List Char} (h : Writes width n text) :
    n < 10 ^ width := by
  have hlt := Decimal.ofDigitChars_lt h.isDigit 0
  rw [← h.value_eq, ← h.length_eq]
  simpa [Decimal.value] using hlt

namespace Reader

variable {text rest : List Char}

section

variable {α β : Type}

theorem run_bind_eq_none {p : Reader α} (h : p.run text = none) (f : α → Reader β) :
    (p >>= f).run text = none := by
  rw [StateT.run_bind, h]
  rfl

theorem run_bind_of_eq_some {p : Reader α} {a : α} (h : p.run text = some (a, rest))
    (f : α → Reader β) : (p >>= f).run text = (f a).run rest := by
  rw [StateT.run_bind, h]
  rfl

theorem run_satisfying_eq_none {p : Char → Bool} (h : ∀ c ∈ text.head?, p c = false) :
    (satisfying p).run text = none := by
  cases text with
  | nil => rfl
  | cons c rest => simp [run_satisfying_cons, h c rfl]

theorem run_satisfying_bind {p : Char → Bool} {c : Char} (h : p c) (f : Char → Reader β) :
    (satisfying p >>= f).run (c :: rest) = (f c).run rest :=
  run_bind_of_eq_some (by rw [run_satisfying_cons, if_pos h]) f

theorem run_char_eq_none {c : Char} (h : ∀ d ∈ text.head?, d ≠ c) :
    (char c).run text = none := by
  refine run_satisfying_eq_none fun d hd => ?_
  exact beq_eq_false_iff_ne.mpr (h d hd)

theorem run_char_cons_eq_none {c d : Char} (h : c ≠ d) : (char d).run (c :: rest) = none :=
  run_char_eq_none (by simpa using h)

theorem run_char_bind (c : Char) (f : Char → Reader β) :
    (char c >>= f).run (c :: rest) = (f c).run rest :=
  run_satisfying_bind (beq_self_eq_true c) f

theorem run_optional_of_eq_some {p : Reader α} {a : α} (h : p.run text = some (a, rest)) :
    (optional p).run text = some (some a, rest) := by
  change ((some <$> p) <|> pure none : Reader (Option α)).run text = _
  rw [run_orElse, StateT.run_map, h]
  rfl

theorem run_optional_of_eq_none {p : Reader α} (h : p.run text = none) :
    (optional p).run text = some (none, text) := by
  change ((some <$> p) <|> pure none : Reader (Option α)).run text = _
  rw [run_orElse, StateT.run_map, h]
  rfl

theorem run_mayBe_bind {c : Char} {front : List Char} (h : MayBe c front)
    (hrest : ∀ d ∈ rest.head?, d ≠ c) (q : Reader β) :
    (optional (char c) >>= fun _ => q).run (front ++ rest) = q.run rest := by
  rcases h with rfl | rfl
  · exact run_bind_of_eq_some (run_optional_of_eq_none (run_char_eq_none hrest)) _
  · exact run_bind_of_eq_some (run_optional_of_eq_some (run_char_cons c rest)) _

theorem run_number_of_writes {width n : Nat} {ds : List Char} (h : Writes width n ds)
    (rest : List Char) : (number width).run (ds ++ rest) = some (n, rest) := by
  have hdigits := run_digits_append h.isDigit rest
  rw [h.length_eq] at hdigits
  rw [number, StateT.run_map, hdigits, ← h.value_eq]
  rfl

theorem run_number_bind {width n : Nat} {ds : List Char} (h : Writes width n ds)
    (f : Nat → Reader β) : (number width >>= f).run (ds ++ rest) = (f n).run rest :=
  run_bind_of_eq_some (run_number_of_writes h rest) f

theorem run_number_eq_none {width : Nat} {ds : List Char} (hlength : ds.length < width)
    (hrest : ∀ c ∈ rest.head?, c.isDigit = false) : (number width).run (ds ++ rest) = none := by
  cases hrun : (number width).run (ds ++ rest) with
  | none => rfl
  | some taken =>
    obtain ⟨taken, hwrites, htext⟩ := of_run_number hrun
    rcases List.append_eq_append_iff.mp htext with ⟨more, rfl, rfl⟩ | ⟨more, rfl, -⟩
    · have hlength' := hwrites.length_eq
      rw [List.length_append] at hlength'
      cases more with
      | nil => simp at hlength'; omega
      | cons c more =>
        have hdigit := hwrites.isDigit c (List.mem_append_right ds List.mem_cons_self)
        exact absurd hdigit (Bool.eq_false_iff.mp (hrest c rfl))
    · rw [List.length_append, hwrites.length_eq] at hlength
      omega

theorem run_year_char_eq_none {y : Nat} {ys : List Char} (hys : Writes 4 y ys) {c : Char}
    (hrest : ∀ d ∈ rest.head?, d ≠ c) (f : Nat → Reader β) :
    (do let y ← year; let _ ← char c; f y).run (ys ++ rest) = none := by
  rw [year, run_number_bind hys]
  exact run_bind_eq_none (run_char_eq_none hrest) _

theorem run_shortNumber_of_writes {n : Nat} {ds : List Char} (h : WritesShort n ds)
    (hrest : ∀ c ∈ rest.head?, c.isDigit = false) :
    shortNumber.run (ds ++ rest) = some (n, rest) := by
  rw [shortNumber, run_orElse]
  rcases h with h | h
  · rw [run_number_eq_none (by rw [h.length_eq]; decide) hrest, run_number_of_writes h]
    rfl
  · rw [run_number_of_writes h]
    rfl

end

end Reader

end DayRoster
